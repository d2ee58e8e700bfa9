import DeferredSave.Catalog
import Mathlib.Data.List.Forall2

/-!
# Patching a catalog

What becomes of the row of a key when the rows that a save returned are put into a catalog: the last
of them for that key takes its place. A key without a row gets none. Nothing else changes, and a
series of patches is like one patch with all their rows (`Catalog.patching_is_lawful`).
-/

namespace DeferredSave.Catalog

variable {updated : List Setting} {key : String} {row : Setting}

theorem key_of_find? {c : Catalog} (h : c.find? key = some row) : row.key = key := by
  simpa using List.find?_some h

/-! ## The last update of a key -/

theorem key_of_lastOf? (h : lastOf? updated key = some row) : row.key = key := by
  simpa using List.find?_some h

theorem mem_of_lastOf? (h : lastOf? updated key = some row) : row ∈ updated := by
  simpa using List.mem_of_find?_eq_some h

theorem exists_lastOf? (h : row ∈ updated) : ∃ last, lastOf? updated row.key = some last := by
  apply Option.isSome_iff_exists.1
  simp only [lastOf?, List.find?_isSome, List.mem_reverse, decide_eq_true_eq]
  exact ⟨row, h, rfl⟩

theorem lastOf?_cons (row : Setting) (updated : List Setting) (key : String) :
    lastOf? (row :: updated) key =
      (lastOf? updated key).or (if row.key = key then some row else none) := by
  simp only [lastOf?, List.reverse_cons, List.find?_append, List.find?_singleton, decide_eq_true_eq]

theorem lastOf?_append (before after : List Setting) (key : String) :
    lastOf? (before ++ after) key = (lastOf? after key).or (lastOf? before key) := by
  simp only [lastOf?, List.reverse_append, List.find?_append]

/-- A row is replaced by one of its key. -/
theorem key_getD_lastOf? (updated : List Setting) (s : Setting) :
    ((lastOf? updated s.key).getD s).key = s.key := by
  cases h : lastOf? updated s.key with
  | none => rfl
  | some last => exact key_of_lastOf? h

/-! ## The rows of a patched catalog -/

theorem rows_withUpdates (c : Catalog) (updated : List Setting) :
    (c.withUpdates updated).rows = c.rows.map fun s => (lastOf? updated s.key).getD s := by
  simp [rows, withUpdates, List.flatMap_map, List.map_flatMap]

theorem find?_withUpdates (c : Catalog) (updated : List Setting) (key : String) :
    (c.withUpdates updated).find? key =
      (c.find? key).map fun row => (lastOf? updated key).getD row := by
  -- keys stay where they are, so the search stops at the same place
  unfold find?
  rw [rows_withUpdates, List.find?_map]
  simp only [Function.comp_def, key_getD_lastOf?]
  refine Option.map_congr ?_
  intro row hrow
  rw [key_of_find? (c := c) hrow]

/-- A row of a patched catalog is the last update of its key, or was there and is not updated. -/
theorem of_find?_withUpdates {c : Catalog} (h : (c.withUpdates updated).find? key = some row) :
    lastOf? updated key = some row ∨ (lastOf? updated key = none ∧ c.find? key = some row) := by
  rw [find?_withUpdates] at h
  obtain ⟨old, hold, hrow⟩ := Option.map_eq_some_iff.1 h
  cases hlast : lastOf? updated key with
  | none => exact .inr ⟨rfl, by simpa [hlast, ← hrow] using hold⟩
  | some last => exact .inl (by simpa [hlast] using hrow)

/-- Updates that come one after the other are like all of them at once. -/
theorem withUpdates_withUpdates (c : Catalog) (first second : List Setting) :
    (c.withUpdates first).withUpdates second = c.withUpdates (first ++ second) := by
  have hrow (s : Setting) :
      (lastOf? second ((lastOf? first s.key).getD s).key).getD ((lastOf? first s.key).getD s) =
        (lastOf? (first ++ second) s.key).getD s := by
    rw [key_getD_lastOf?, lastOf?_append]
    cases lastOf? second s.key <;> rfl
  simp only [withUpdates, List.map_map, Function.comp_def, hrow]

/-- The same updates once more change nothing. -/
theorem withUpdates_self (c : Catalog) (updated : List Setting) :
    (c.withUpdates updated).withUpdates updated = c.withUpdates updated := by
  have hlast (key : String) : lastOf? (updated ++ updated) key = lastOf? updated key := by
    rw [lastOf?_append, Option.or_self]
  rw [withUpdates_withUpdates]
  simp only [withUpdates, hlast]

/-! ## The laws of patching -/

/-- The row is the last of the updates that has the key. -/
def LastUpdate (updated : List Setting) (key : String) (row : Setting) : Prop :=
  ∃ before after, updated = before ++ row :: after ∧ row.key = key ∧ ∀ u ∈ after, u.key ≠ key

/-- The row is the first one of the catalog that has the key, category by category. -/
def FirstRow (c : Catalog) (key : String) (row : Setting) : Prop :=
  ∃ before after, c.rows = before ++ row :: after ∧ row.key = key ∧ ∀ s ∈ before, s.key ≠ key

/-- What may stand in the place of a row after a patch. -/
inductive Patches (updated : List Setting) (s : Setting) : Setting → Prop where
  | replaced {row : Setting} : LastUpdate updated s.key row → Patches updated s row
  | kept : (∀ u ∈ updated, u.key ≠ s.key) → Patches updated s s

theorem lastOf?_eq_some_iff : lastOf? updated key = some row ↔ LastUpdate updated key row := by
  simp only [lastOf?, List.find?_eq_some_iff_append, decide_eq_true_eq, LastUpdate,
    Bool.not_eq_true', decide_eq_false_iff_not]
  -- the search starts at the end of the updates
  constructor
  · rintro ⟨hkey, after, before, hsplit, hafter⟩
    refine ⟨before.reverse, after.reverse, ?_, hkey, by simpa using hafter⟩
    simpa using congrArg List.reverse hsplit
  · rintro ⟨before, after, rfl, hkey, hafter⟩
    exact ⟨hkey, after.reverse, before.reverse, by simp, by simpa using hafter⟩

theorem lastOf?_eq_none_iff : lastOf? updated key = none ↔ ∀ u ∈ updated, u.key ≠ key := by
  simp [lastOf?]

theorem patches_getD_lastOf? (updated : List Setting) (s : Setting) :
    Patches updated s ((lastOf? updated s.key).getD s) := by
  cases h : lastOf? updated s.key with
  | none => exact .kept (lastOf?_eq_none_iff.1 h)
  | some last => exact .replaced (lastOf?_eq_some_iff.1 h)

theorem find?_eq_some_iff_firstRow {c : Catalog} :
    c.find? key = some row ↔ FirstRow c key row := by
  simp only [find?, List.find?_eq_some_iff_append, decide_eq_true_eq, FirstRow,
    Bool.not_eq_true', decide_eq_false_iff_not]
  constructor
  · rintro ⟨hkey, before, after, hsplit, hbefore⟩
    exact ⟨before, after, hsplit, hkey, hbefore⟩
  · rintro ⟨before, after, hsplit, hkey, hbefore⟩
    exact ⟨hkey, before, after, hsplit, hbefore⟩

/-- The categories stay, and each row is patched in its place. -/
theorem forall₂_withUpdates (c : Catalog) (updated : List Setting) :
    List.Forall₂ (fun old new => new.1 = old.1 ∧ List.Forall₂ (Patches updated) old.2 new.2)
      c.categories (c.withUpdates updated).categories := by
  refine List.forall₂_map_right_iff.2 (List.forall₂_same.2 fun category _ => ⟨rfl, ?_⟩)
  exact List.forall₂_map_right_iff.2 (List.forall₂_same.2 fun s _ => patches_getD_lastOf? updated s)

/-- Names, keys and their order are those of before. -/
theorem keys_withUpdates (c : Catalog) (updated : List Setting) :
    (c.withUpdates updated).categories.map (fun e => (e.1, e.2.map (·.key))) =
      c.categories.map fun e => (e.1, e.2.map (·.key)) := by
  simp [withUpdates, Function.comp_def, key_getD_lastOf?]

theorem find?_withUpdates_eq_some_iff {c : Catalog} :
    (c.withUpdates updated).find? key = some row ↔
      (LastUpdate updated key row ∧ (c.find? key).isSome = true) ∨
        ((∀ u ∈ updated, u.key ≠ key) ∧ c.find? key = some row) := by
  rw [find?_withUpdates, ← lastOf?_eq_some_iff, ← lastOf?_eq_none_iff]
  cases c.find? key <;> cases lastOf? updated key <;> simp

/-- The catalogs of a series of patches, from the one of before on. -/
def series (c : Catalog) (patches : List (List Setting)) : List Catalog :=
  patches.scanl withUpdates c

theorem withUpdates_nil (c : Catalog) : c.withUpdates [] = c := by
  simp [withUpdates, lastOf?]

theorem foldl_withUpdates (c : Catalog) (patches : List (List Setting)) :
    patches.foldl withUpdates c = c.withUpdates patches.flatten := by
  induction patches generalizing c with
  | nil => exact (withUpdates_nil c).symm
  | cons updated patches ih => rw [List.foldl_cons, ih, withUpdates_withUpdates, List.flatten_cons]

/-- The catalogs of a series are the first one with all updates so far. -/
theorem getElem?_series (c : Catalog) (patches : List (List Setting)) (i : Nat) :
    (c.series patches)[i]? =
      if i ≤ patches.length then some (c.withUpdates (patches.take i).flatten) else none := by
  rw [series, List.getElem?_scanl, foldl_withUpdates]

theorem getElem?_series_zero (c : Catalog) (patches : List (List Setting)) :
    (c.series patches)[0]? = some c := by
  rw [getElem?_series, if_pos (Nat.zero_le _), List.take_zero, List.flatten_nil, withUpdates_nil]

/-- A patch keeps the categories, their order, and the keys of each in their order. A row whose key
is updated becomes the last update of the key, and the other rows stay. So a key that the catalog
has is found as its last update if it is updated, every other key is found as before, and a key that
the catalog does not have is not found afterwards either; what is found is the first row of its key.
One patch after the other is like one with the updates of both. A catalog is a value: in a series of
patches each one makes the next catalog, and the first one stays what it was. -/
theorem patching_is_lawful (c : Catalog) (updated : List Setting) :
    List.Forall₂ (fun old new => new.1 = old.1 ∧ List.Forall₂ (Patches updated) old.2 new.2)
        c.categories (c.withUpdates updated).categories ∧
      (c.withUpdates updated).categories.map (fun e => (e.1, e.2.map (·.key))) =
        c.categories.map (fun e => (e.1, e.2.map (·.key))) ∧
      (∀ key row, c.find? key = some row ↔ FirstRow c key row) ∧
      (∀ key row, (c.withUpdates updated).find? key = some row ↔
        (LastUpdate updated key row ∧ (c.find? key).isSome = true) ∨
          ((∀ u ∈ updated, u.key ≠ key) ∧ c.find? key = some row)) ∧
      (∀ key, (c.withUpdates updated).find? key = none ↔ c.find? key = none) ∧
      (∀ later, (c.withUpdates updated).withUpdates later = c.withUpdates (updated ++ later)) ∧
      ∀ patches, (c.series patches)[0]? = some c ∧
        ∀ i, (c.series patches)[i]? =
          if i ≤ patches.length then some (c.withUpdates (patches.take i).flatten) else none := by
  refine ⟨forall₂_withUpdates c updated, keys_withUpdates c updated,
    fun _ _ => find?_eq_some_iff_firstRow, fun _ _ => find?_withUpdates_eq_some_iff,
    fun key => ?_, withUpdates_withUpdates c updated,
    fun patches => ⟨getElem?_series_zero c patches, getElem?_series c patches⟩⟩
  rw [find?_withUpdates, Option.map_eq_none_iff]

end DeferredSave.Catalog
