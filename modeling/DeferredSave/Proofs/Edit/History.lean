import DeferredSave.Proofs.Edit.Batch
import Mathlib.Data.List.Dedup

/-!
# The last edit of each key

Of the edits of a key only the last one counts, and so does its place among the others
(`lastEdits`). A buffer in which edits are made one after the other holds just these, but for those
that were dropped.
-/

namespace DeferredSave

/-- Of edits one after the other, those whose key is not edited again. -/
def lastEdits : List (String × String) → List (String × String)
  | [] => []
  | (key, value) :: log =>
    if log.any (·.1 = key) then lastEdits log else (key, value) :: lastEdits log

/-- Each key has its place once, and that is the place of its last edit. -/
theorem keys_lastEdits (log : List (String × String)) :
    (lastEdits log).map (·.1) = (log.map (·.1)).dedup := by
  induction log with
  | nil => rfl
  | cons e log ih =>
    obtain ⟨key, value⟩ := e
    have hany : (log.any (·.1 = key)) = true ↔ key ∈ log.map (·.1) := by
      simp [List.any_eq_true, List.mem_map]
    rw [lastEdits]
    split
    · rename_i h
      rw [ih, List.map_cons, List.dedup_cons_of_mem (hany.1 h)]
    · rename_i h
      rw [List.map_cons, ih, List.map_cons, List.dedup_cons_of_notMem (mt hany.2 h)]

/-- A key has the value of its last edit. -/
theorem mem_lastEdits {log : List (String × String)} {key value : String} :
    (key, value) ∈ lastEdits log ↔ log.reverse.lookup key = some value := by
  induction log with
  | nil => simp [lastEdits]
  | cons e log ih =>
    obtain ⟨first, other⟩ := e
    have hnone : log.reverse.lookup key = none ↔ log.any (·.1 = key) = false := by
      simp [List.lookup_eq_none_iff, eq_comm (a := key)]
    rw [lastEdits, List.reverse_cons, List.lookup_append]
    by_cases hkey : key = first
    · subst hkey
      split
      · rename_i hlater
        have hsome : log.reverse.lookup key ≠ none := by
          rw [Ne, hnone, hlater]
          simp
        obtain ⟨v, hv⟩ := Option.ne_none_iff_exists'.1 hsome
        simp [ih, hv]
      · rename_i hlast
        rw [Bool.not_eq_true] at hlast
        have hmem : (key, value) ∉ lastEdits log := by
          rw [ih, hnone.2 hlast]
          simp
        simp [hnone.2 hlast, hmem, eq_comm]
    · have hmem : (key, value) ∈ (if log.any (·.1 = first) then lastEdits log
          else (first, other) :: lastEdits log) ↔ (key, value) ∈ lastEdits log := by
        split <;> simp [hkey]
      have hother : [(first, other)].lookup key = none := by
        simp [hkey]
      rw [hmem, ih, hother, Option.or_none]

theorem lastEdits_concat (log : List (String × String)) (key value : String) :
    lastEdits (log ++ [(key, value)]) =
      (lastEdits log).filter (·.1 ≠ key) ++ [(key, value)] := by
  induction log with
  | nil => simp [lastEdits]
  | cons e log ih =>
    obtain ⟨first, other⟩ := e
    rw [List.cons_append, lastEdits, lastEdits, List.any_append, ih]
    by_cases hkey : first = key
    · -- the edit of a key that is edited again does not count, whether it counted before or not
      subst hkey
      have hlater : (log.any (·.1 = first) || [(first, value)].any (·.1 = first)) = true := by
        simp
      rw [if_pos hlater]
      split <;> simp
    · have hsame : (log.any (·.1 = first) || [(key, value)].any (·.1 = first)) =
          log.any (·.1 = first) := by
        simp [Ne.symm hkey]
      rw [hsame]
      split <;> simp [hkey]

theorem lastEdits_eq_nil_iff {log : List (String × String)} : lastEdits log = [] ↔ log = [] := by
  have hkeys := keys_lastEdits log
  constructor
  · intro h
    rw [h, List.map_nil, eq_comm, List.dedup_eq_nil, List.map_eq_nil_iff] at hkeys
    exact hkeys
  · rintro rfl
    rfl

/-- The batch has each key of some edits once, in the order in which the keys were edited last, and
with its last value. -/
structure Batch.Joins (batch : Batch) (log : List (String × String)) : Prop where
  keys : batch.keys = (log.map (·.1)).dedup
  values : ∀ key value, (key, value) ∈ batch.entries ↔ log.reverse.lookup key = some value

namespace EditBuffer

theorem snapshot_joins {b : EditBuffer} {log : List (String × String)}
    (h : b.items = lastEdits log) : b.snapshot.Joins log where
  keys := by
    rw [← keys_lastEdits, ← h]
    rfl
  values := by
    intro key value
    rw [← mem_lastEdits, ← h]
    rfl

theorem items_set (b : EditBuffer) (key value : String) :
    (b.set key value).items = b.items.filter (·.1 ≠ key) ++ [(key, value)] := by
  simp [items, set, erase, List.filter_map, Function.comp_def]

/-- After one more edit the buffer still holds last edits only. -/
theorem sublist_lastEdits_set {b : EditBuffer} {log : List (String × String)}
    (h : b.items.Sublist (lastEdits log)) (key value : String) :
    (b.set key value).items.Sublist (lastEdits (log ++ [(key, value)])) := by
  rw [items_set, lastEdits_concat]
  exact (h.filter _).append_right _

/-- Edits that are made in an empty buffer are there by their last edits. -/
theorem items_set_eq {b : EditBuffer} {log : List (String × String)}
    (h : b.items = lastEdits log) (key value : String) :
    (b.set key value).items = lastEdits (log ++ [(key, value)]) := by
  rw [items_set, lastEdits_concat, h]

end EditBuffer

end DeferredSave
