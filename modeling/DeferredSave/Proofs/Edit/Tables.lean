import DeferredSave.Proofs.Edit.Flushed
import DeferredSave.Proofs.Edit.History
import DeferredSave.Proofs.Entries

/-!
# A buffer in two tables

The edits of a buffer may be held in two tables and a counter: one has the values in the order of
the edits, the other the revisions in the order in which their keys came in. A removal takes a key
out of one table and then out of the other, and fails where the key is missing.

From an empty buffer on, whatever is called, the tables hold just what the buffer holds
(`EditTables.Represents`): both have the same keys, nothing is ever missing from one of them, and
every call ends as it does with the buffer.
-/

namespace DeferredSave

/-- Edits in two tables, and the greatest revision that was given to an edit. -/
structure EditTables where
  values : List (String × String) := []
  revisions : List (String × Int) := []
  counter : Int := 0
deriving DecidableEq, Repr

namespace EditTables

/-! ## Calls -/

/-- Makes an edit. In the table of values its key moves to the end, in the table of revisions a key
that is there keeps its place. -/
def set (t : EditTables) (key value : String) : EditTables where
  values := Entries.put key value (Entries.erase key t.values)
  revisions := Entries.put key (t.counter + 1) t.revisions
  counter := t.counter + 1

/-- The revision of a key, which has to be there. -/
def revision (t : EditTables) (key : String) : Except MissingKey Int :=
  match t.revisions.lookup key with
  | some revision => .ok revision
  | none => .error ⟨key⟩

/-- A copy of the edits as they are now, in the order of the values. -/
def snapshot (t : EditTables) : Except MissingKey Batch :=
  (t.values.mapM fun e => t.revision e.1).map (⟨t.values, ·⟩)

/-- Removes a key from the values and then from the revisions. It has to be in both. -/
def remove (t : EditTables) (key : String) : EditTables × Option MissingKey :=
  if Entries.contains key t.values then
    let t := { t with values := Entries.erase key t.values }
    if Entries.contains key t.revisions then
      ({ t with revisions := Entries.erase key t.revisions }, none)
    else (t, some ⟨key⟩)
  else (t, some ⟨key⟩)

/-- Removes keys one after the other, up to the first that is missing. -/
def removeEach (t : EditTables) : List String → EditTables × Option MissingKey
  | [] => (t, none)
  | key :: keys =>
    match t.remove key with
    | (t, none) => t.removeEach keys
    | (t, some missing) => (t, some missing)

/-- Drops the edits of the given keys, or all. -/
def discard (t : EditTables) (keys? : Option (List String)) :
    EditTables × Except MissingKey (List String) :=
  let targets := match keys? with
    | none => Entries.keys t.values
    | some keys => keys.filter (Entries.contains · t.values)
  match t.removeEach targets with
  | (t, none) => (t, .ok targets)
  | (t, some missing) => (t, .error missing)

/-- Removes every entry whose revision is still that of its key, and lists the keys. -/
def dropFlushed (t : EditTables) :
    List (String × String) → List Int → EditTables × Except MissingKey (List String)
  | (key, _) :: entries, revision :: revisions =>
    if t.revisions.lookup key = some revision then
      match t.remove key with
      | (t, none) =>
        let (t, dropped) := t.dropFlushed entries revisions
        (t, dropped.map (key :: ·))
      | (t, some missing) => (t, .error missing)
    else t.dropFlushed entries revisions
  | _, _ => (t, .ok [])

/-- Drops the edits that a batch has saved. -/
def discardFlushed (t : EditTables) (batch : Batch) :
    EditTables × Except (MissingKey ⊕ LengthMismatch) (List String) :=
  match t.dropFlushed batch.entries batch.revisions with
  | (t, .error missing) => (t, .error (.inl missing))
  | (t, .ok dropped) =>
    if batch.revisions.length < batch.entries.length then (t, .error (.inr .tooFewRevisions))
    else if batch.entries.length < batch.revisions.length then (t, .error (.inr .tooManyRevisions))
    else (t, .ok dropped)

/-- The tables after a call, also after one that ends early with an error. -/
def after (t : EditTables) : BufferCall → EditTables
  | .set key value => t.set key value
  | .discard keys? => (t.discard keys?).1
  | .discardFlushed batch => (t.discardFlushed batch).1

/-! ## What tables and buffer have in common -/

/-- The tables hold the edits of the buffer. -/
structure Represents (t : EditTables) (b : EditBuffer) : Prop where
  values : t.values = b.items
  revisions : ∀ key, t.revisions.lookup key = (b.find? key).map (·.revision)
  once : (Entries.keys t.revisions).Nodup
  counter : t.counter = b.issued

variable {t : EditTables} {b : EditBuffer} {key : String}

theorem represents_empty : Represents {} {} where
  values := rfl
  revisions := fun _ => rfl
  once := List.nodup_nil
  counter := rfl

namespace Represents

theorem keys_values (h : Represents t b) : Entries.keys t.values = b.keys := by
  simp [h.values, Entries.keys, EditBuffer.items, EditBuffer.keys]

theorem contains_values (h : Represents t b) (key : String) :
    Entries.contains key t.values = b.contains key := by
  rw [Bool.eq_iff_iff, Entries.contains_iff, h.keys_values]
  simp [EditBuffer.contains, EditBuffer.find?, EditBuffer.keys]

theorem contains_revisions (h : Represents t b) (key : String) :
    Entries.contains key t.revisions = b.contains key := by
  have hlookup := congrArg Option.isSome (h.revisions key)
  rw [Option.isSome_map] at hlookup
  rw [EditBuffer.contains, ← hlookup, Bool.eq_iff_iff, List.lookup_isSome_iff]
  simp [Entries.contains, eq_comm (a := key)]

/-- Both tables have the same keys. -/
theorem keys_perm (h : Represents t b) (hb : b.keys.Nodup) :
    (Entries.keys t.values).Perm (Entries.keys t.revisions) := by
  rw [List.perm_ext_iff_of_nodup (h.keys_values ▸ hb) h.once]
  intro key
  rw [← Entries.contains_iff, ← Entries.contains_iff, h.contains_values, h.contains_revisions]

/-! ### Making an edit -/

theorem set (h : Represents t b) (key value : String) :
    Represents (t.set key value) (b.set key value) where
  values := by
    have hnew : key ∉ Entries.keys (Entries.erase key t.values) := by
      simp [Entries.keys, Entries.erase]
    rw [EditTables.set, Entries.put_of_not_mem hnew, EditBuffer.items_set, h.values]
    rfl
  revisions := by
    intro other
    by_cases hkey : other = key
    · subst hkey
      simp [EditTables.set, h.counter]
    · rw [EditBuffer.find?_set_of_ne hkey, ← h.revisions]
      exact Entries.lookup_put_of_ne hkey _ _
  once := Entries.nodup_keys_put h.once _ _
  counter := by simp [EditTables.set, h.counter]

/-! ### Removing keys -/

theorem erase (h : Represents t b) (key : String) :
    Represents ⟨Entries.erase key t.values, Entries.erase key t.revisions, t.counter⟩
      (b.erase key) where
  values := by
    rw [h.values]
    simp [Entries.erase, EditBuffer.items, EditBuffer.erase, List.filter_map, Function.comp_def]
  revisions := by
    intro other
    by_cases hkey : other = key
    · subst hkey
      have hnone : (Entries.erase other t.revisions).lookup other = none := by
        simp [Entries.erase, List.lookup_eq_none_iff, eq_comm (a := other)]
      rw [hnone, EditBuffer.find?_erase_self]
      rfl
    · rw [EditBuffer.find?_erase_of_ne hkey, ← h.revisions]
      exact Entries.lookup_erase_of_ne hkey _
  once := by
    have hsub : (Entries.keys (Entries.erase key t.revisions)).Sublist (Entries.keys t.revisions) :=
      List.filter_sublist.map _
    exact hsub.nodup h.once
  counter := h.counter

/-- A key with an edit is in both tables. -/
theorem remove_of_contains (h : Represents t b) (hkey : b.contains key = true) :
    ∃ t', t.remove key = (t', none) ∧ Represents t' (b.erase key) := by
  refine ⟨_, ?_, h.erase key⟩
  rw [remove, if_pos ((h.contains_values key).trans hkey)]
  exact if_pos ((h.contains_revisions key).trans hkey)

theorem remove_of_not_contains (h : Represents t b) (hkey : ¬ b.contains key = true) :
    t.remove key = (t, some ⟨key⟩) := by
  rw [remove, if_neg (by rwa [h.contains_values])]

theorem removeEach (h : Represents t b) (keys : List String) :
    ∃ t', t.removeEach keys = (t', (b.eraseEach keys).2) ∧
      Represents t' (b.eraseEach keys).1 := by
  induction keys generalizing t b with
  | nil => exact ⟨t, rfl, h⟩
  | cons key keys ih =>
    rw [EditTables.removeEach, EditBuffer.eraseEach]
    by_cases hkey : b.contains key = true
    · obtain ⟨t', hremove, h'⟩ := h.remove_of_contains hkey
      rw [hremove, if_pos hkey]
      exact ih h'
    · rw [h.remove_of_not_contains hkey, if_neg hkey]
      exact ⟨t, rfl, h⟩

theorem discard (h : Represents t b) (keys? : Option (List String)) :
    Represents (t.discard keys?).1 (b.discard keys?).1 ∧
      (t.discard keys?).2 = (b.discard keys?).2 := by
  have hfound (keys : List String) :
      keys.filter (Entries.contains · t.values) = keys.filter b.contains :=
    List.filter_congr fun key _ => h.contains_values key
  unfold EditTables.discard EditBuffer.discard
  cases keys? with
  | none =>
    obtain ⟨t', ht, h'⟩ := h.removeEach b.keys
    simp only [h.keys_values, ht]
    generalize b.eraseEach b.keys = left at h' ⊢
    obtain ⟨b', _ | missing⟩ := left <;> exact ⟨h', rfl⟩
  | some keys =>
    obtain ⟨t', ht, h'⟩ := h.removeEach (keys.filter b.contains)
    simp only [hfound, ht]
    generalize b.eraseEach (keys.filter b.contains) = left at h' ⊢
    obtain ⟨b', _ | missing⟩ := left <;> exact ⟨h', rfl⟩

/-! ### Removing what is stored -/

theorem dropFlushed (h : Represents t b) (entries : List (String × String))
    (revisions : List Int) :
    Represents (t.dropFlushed entries revisions).1 (b.dropFlushed entries revisions).1 ∧
      (t.dropFlushed entries revisions).2 = .ok (b.dropFlushed entries revisions).2 := by
  induction entries generalizing t b revisions with
  | nil => exact ⟨h, rfl⟩
  | cons entry entries ih =>
    cases revisions with
    | nil => exact ⟨h, rfl⟩
    | cons revision revisions =>
      have hcurrent : t.revisions.lookup entry.1 = some revision ↔
          (b.find? entry.1).any (·.revision = revision) = true := by
        rw [h.revisions]
        cases b.find? entry.1 <;> simp
      rw [EditTables.dropFlushed, EditBuffer.dropFlushed]
      by_cases hsame : (b.find? entry.1).any (·.revision = revision) = true
      · have hkey : b.contains entry.1 = true := by
          obtain ⟨e, he, -⟩ := (Option.any_eq_true _ _).1 hsame
          simp [EditBuffer.contains, he]
        obtain ⟨t', hremove, h'⟩ := h.remove_of_contains hkey
        obtain ⟨hleft, hdropped⟩ := ih h' revisions
        rw [if_pos (hcurrent.2 hsame), if_pos hsame, hremove]
        exact ⟨hleft, by simp [hdropped, Except.map]⟩
      · rw [if_neg (mt hcurrent.1 hsame), if_neg hsame]
        exact ih h revisions

/-- No key is missing where a batch is dropped; it can only be that the batch is not well made. -/
theorem discardFlushed (h : Represents t b) (batch : Batch) :
    Represents (t.discardFlushed batch).1 (b.discardFlushed batch).1 ∧
      (t.discardFlushed batch).2 = (b.discardFlushed batch).2.mapError .inr := by
  obtain ⟨hleft, hdropped⟩ := h.dropFlushed batch.entries batch.revisions
  unfold EditTables.discardFlushed EditBuffer.discardFlushed
  revert hleft hdropped
  generalize t.dropFlushed _ _ = left
  obtain ⟨t', result⟩ := left
  rintro hleft rfl
  dsimp only
  split
  · exact ⟨hleft, rfl⟩
  · split
    · exact ⟨hleft, rfl⟩
    · exact ⟨hleft, rfl⟩

theorem after (h : Represents t b) (c : BufferCall) : Represents (t.after c) (b.after c) := by
  cases c with
  | set key value => exact h.set key value
  | discard keys? => exact (h.discard keys?).1
  | discardFlushed batch => exact (h.discardFlushed batch).1

/-! ### Taking a copy -/

theorem snapshot (h : Represents t b) (hb : b.keys.Nodup) : t.snapshot = .ok b.snapshot := by
  have hread : ∀ edits : List Edit, (∀ e ∈ edits, e ∈ b.edits) →
      (edits.map fun e => (e.key, e.value)).mapM (fun e => t.revision e.1) =
        .ok (edits.map (·.revision)) := by
    intro edits hmem
    induction edits with
    | nil => rfl
    | cons e edits ih =>
      obtain ⟨he, hedits⟩ := List.forall_mem_cons.1 hmem
      have hrevision : t.revision e.key = .ok e.revision := by
        rw [revision, h.revisions, EditBuffer.find?_of_mem hb he]
        rfl
      rw [List.map_cons, List.mapM_cons, hrevision, ih hedits]
      rfl
  rw [EditTables.snapshot, h.values, EditBuffer.items, hread b.edits fun _ he => he]
  rfl

end Represents

end EditTables

end DeferredSave
