import DeferredSave.Proofs.Catalog.Patch
import DeferredSave.Proofs.Entries
import DeferredSave.Store.Memory

/-!
# What a store in memory holds

A store in memory has one row for each of its keys (`MemoryStore.Keyed`). A batch without repeated
keys is stored as it is: each of its entries is answered with the row that is held from then on, and
no other key is touched (`MemoryStore.Stored`). What is loaded is what is held
(`MemoryStore.Keyed.find?_fetch`).
-/

namespace DeferredSave

theorem nodup_eraseDups {α : Type} [BEq α] [LawfulBEq α] (as : List α) : as.eraseDups.Nodup := by
  match as with
  | [] => simp
  | a :: as =>
    rw [List.eraseDups_cons, List.nodup_cons]
    exact ⟨by simp, nodup_eraseDups _⟩
termination_by as.length
decreasing_by exact Nat.lt_succ_of_le (List.length_filter_le ..)

namespace MemoryStore

variable {m : MemoryStore} {now : Stamp} {key value : String}

/-- The row that is held of a key. -/
def held (m : MemoryStore) (key : String) : Option Setting := (m.rows.lookup key).map (·.setting)

/-- Each key has one row, and its row is one of that key. -/
structure Keyed (m : MemoryStore) : Prop where
  distinct : (Entries.keys m.rows).Nodup
  own : ∀ key row, (key, row) ∈ m.rows → row.setting.key = key

theorem keyed_ofCategories (seed : Categories) (actor : Option String) :
    (ofCategories seed actor).Keyed where
  distinct := Entries.nodup_keys_ofList _
  own := by
    intro key row hrow
    obtain ⟨⟨category, settings⟩, -, hsetting⟩ :=
      List.mem_flatMap.1 (Entries.mem_of_mem_ofList hrow)
    obtain ⟨s, -, heq⟩ := List.mem_map.1 hsetting
    cases heq
    rfl

/-! ## Loading -/

/-- No category is listed twice. -/
theorem nodup_keys_fetch (m : MemoryStore) : (Entries.keys m.fetch).Nodup := by
  have : Entries.keys m.fetch = (m.rows.map (·.2.category)).eraseDups := by
    simp [Entries.keys, MemoryStore.fetch, Function.comp_def]
  rw [this]
  exact nodup_eraseDups _

theorem mem_rows_fetch {s : Setting} :
    s ∈ (Catalog.mk m.fetch).rows ↔ ∃ key row, (key, row) ∈ m.rows ∧ row.setting = s := by
  simp only [Catalog.rows, fetch, List.mem_flatMap, List.mem_map, List.mem_eraseDups]
  constructor
  · rintro ⟨_, ⟨_, -, rfl⟩, hs⟩
    obtain ⟨⟨key, row⟩, hrow, rfl⟩ := List.mem_map.1 (List.mem_mergeSort.1 hs)
    exact ⟨key, row, (List.mem_filter.1 hrow).1, rfl⟩
  · rintro ⟨key, row, hrow, rfl⟩
    refine ⟨_, ⟨row.category, ⟨(key, row), hrow, rfl⟩, rfl⟩, List.mem_mergeSort.2 ?_⟩
    exact List.mem_map.2 ⟨(key, row), List.mem_filter.2 ⟨hrow, by simp⟩, rfl⟩

/-- A load finds what is held. -/
theorem Keyed.find?_fetch (h : m.Keyed) (key : String) :
    (Catalog.mk m.fetch).find? key = m.held key := by
  cases hfind : (Catalog.mk m.fetch).find? key with
  | none =>
    -- a row that is held would have been found
    symm
    refine Option.map_eq_none_iff.2 (Option.eq_none_iff_forall_ne_some.2 fun row hrow => ?_)
    have hmem := Entries.mem_of_lookup hrow
    have hnone := List.find?_eq_none.1 hfind row.setting (mem_rows_fetch.2 ⟨key, row, hmem, rfl⟩)
    exact hnone (by simpa using h.own key row hmem)
  | some s =>
    obtain ⟨key', row, hrow, rfl⟩ := mem_rows_fetch.1 (List.mem_of_find?_eq_some hfind)
    have hkey : key' = key := (h.own key' row hrow).symm.trans (Catalog.key_of_find? hfind)
    subst hkey
    rw [held, Entries.lookup_of_mem h.distinct hrow]
    rfl

/-! ## Storing -/

theorem keys_updateOne (m : MemoryStore) (now : Stamp) (key value : String) :
    Entries.keys (m.updateOne now key value).1.rows = Entries.keys m.rows := by
  unfold updateOne
  split
  · rfl
  · next row hrow =>
    have hmem : key ∈ Entries.keys m.rows := List.mem_map.2 ⟨_, Entries.mem_of_lookup hrow, rfl⟩
    rw [Entries.keys_put, if_pos hmem]

theorem keys_updateAll (m : MemoryStore) (now : Stamp) (entries : List (String × String)) :
    Entries.keys (m.updateAll now entries).1.rows = Entries.keys m.rows := by
  induction entries generalizing m with
  | nil => rfl
  | cons e rest ih =>
    simp only [updateAll]
    rw [ih, keys_updateOne]

theorem Keyed.updateOne (h : m.Keyed) (now : Stamp) (key value : String) :
    (m.updateOne now key value).1.Keyed := by
  unfold MemoryStore.updateOne
  split
  · exact h
  · rename_i row hrow
    refine ⟨Entries.nodup_keys_put h.distinct _ _, ?_⟩
    intro key' row' hrow'
    rcases Entries.mem_put hrow' with heq | hold
    · cases heq
      exact h.own key row (Entries.mem_of_lookup hrow)
    · exact h.own key' row' hold

/-- One value is stored under a key that is held, and answered with the row that is held then. -/
theorem Keyed.updateOne_held (h : m.Keyed) {s : Setting} (hs : m.held key = some s) (now : Stamp)
    (value : String) : ∃ s', (m.updateOne now key value).2 = some s' ∧ s'.key = key ∧
      s'.value = value ∧ (m.updateOne now key value).1.held key = some s' := by
  obtain ⟨row, hrow, rfl⟩ := Option.map_eq_some_iff.1 hs
  have hkey : row.setting.key = key := h.own key row (Entries.mem_of_lookup hrow)
  unfold MemoryStore.updateOne
  rw [hrow]
  exact ⟨_, rfl, hkey, rfl, by simp [held]⟩

theorem updateOne_others {key' : String} (hne : key' ≠ key) :
    (m.updateOne now key value).1.held key' = m.held key' := by
  unfold updateOne
  split
  · rfl
  · simp [held, Entries.lookup_put_of_ne hne]

/-- The entries are stored as they are, and answered with the given rows. -/
structure Stored (entries : List (String × String)) (m m' : MemoryStore) (rows : List Setting) :
    Prop where
  keyed : m'.Keyed
  each : ∀ key value, (key, value) ∈ entries → ∃ row ∈ rows, row.key = key ∧ row.value = value
  answers : ∀ row ∈ rows, m'.held row.key = some row
  others : ∀ key, key ∉ entries.map (·.1) → m'.held key = m.held key

theorem Keyed.updateAll (h : m.Keyed) {entries : List (String × String)}
    (hdistinct : (entries.map (·.1)).Nodup)
    (hheld : ∀ key ∈ entries.map (·.1), (m.held key).isSome) (now : Stamp) :
    Stored entries m (m.updateAll now entries).1 (m.updateAll now entries).2 := by
  induction entries generalizing m with
  | nil => exact ⟨h, nofun, nofun, fun _ _ => rfl⟩
  | cons e rest ih =>
    obtain ⟨key, value⟩ := e
    obtain ⟨hnew, hrest⟩ := List.nodup_cons.1 hdistinct
    obtain ⟨s, hs⟩ := Option.isSome_iff_exists.1 (hheld key List.mem_cons_self)
    obtain ⟨s', hanswer, hkey, hvalue, hheld'⟩ := h.updateOne_held hs now value
    have hrestHeld : ∀ key' ∈ rest.map (·.1),
        ((m.updateOne now key value).1.held key').isSome := by
      intro key' hkey'
      have hne : key' ≠ key := by
        rintro rfl
        exact hnew hkey'
      rw [updateOne_others hne]
      exact hheld key' (List.mem_cons_of_mem _ hkey')
    have hstored := ih (h.updateOne now key value) hrest hrestHeld
    have hrows : (m.updateAll now ((key, value) :: rest)).2 =
        s' :: ((m.updateOne now key value).1.updateAll now rest).2 := by
      simp [MemoryStore.updateAll, hanswer]
    rw [hrows]
    refine ⟨hstored.keyed, ?_, ?_, ?_⟩
    · intro key' value' hentry
      rcases List.mem_cons.1 hentry with heq | hentry
      · cases heq
        exact ⟨s', List.mem_cons_self, hkey, hvalue⟩
      · obtain ⟨row, hrow, hsame⟩ := hstored.each key' value' hentry
        exact ⟨row, List.mem_cons_of_mem _ hrow, hsame⟩
    · intro row hrow
      rcases List.mem_cons.1 hrow with rfl | hrow
      · -- the entries that follow are not of this key
        have hkept := hstored.others key hnew
        rw [hkey]
        exact hkept.trans hheld'
      · exact hstored.answers row hrow
    · intro key' hkey'
      have hne : key' ≠ key := by
        rintro rfl
        exact hkey' List.mem_cons_self
      have hnot : key' ∉ rest.map (·.1) := fun hmem => hkey' (List.mem_cons_of_mem _ hmem)
      exact (hstored.others key' hnot).trans (updateOne_others hne)

/-- A batch that is not refused is stored as it is. -/
theorem Keyed.update (h : m.Keyed) {batch : Batch} (hdistinct : batch.keys.Nodup)
    {rows : List Setting} (hupdate : m.update now batch = (m', .ok rows)) :
    Stored batch.entries m m' rows := by
  unfold MemoryStore.update at hupdate
  split at hupdate
  · cases hupdate
  · split at hupdate
    · cases hupdate
    · rename_i hknown
      have hheld : ∀ key ∈ batch.entries.map (·.1), (m.held key).isSome := by
        intro key hkey
        have hcontains := List.find?_eq_none.1 hknown key hkey
        obtain ⟨row, hrow⟩ := Entries.exists_lookup_of_contains (by simpa using hcontains)
        simp [held, hrow]
      cases hupdate
      exact h.updateAll hdistinct hheld now

theorem update_of_known {batch : Batch} (hne : batch.entries ≠ [])
    (h : ∀ key ∈ batch.keys, key ∈ Entries.keys m.rows) (now : Stamp) :
    m.update now batch
      = ((m.updateAll now batch.entries).1, .ok (m.updateAll now batch.entries).2) := by
  have hempty : batch.isEmpty = false := by simpa [Batch.isEmpty] using hne
  have hknown : m.unknownKey? batch = none := by
    refine List.find?_eq_none.2 fun key hkey => ?_
    obtain ⟨e, he, rfl⟩ := List.mem_map.1 (h key hkey)
    simpa [Entries.contains] using ⟨e.2, he⟩
  simp [update, hempty, hknown]

end MemoryStore

end DeferredSave
