import DeferredSave.Entries

/-!
# Looking up entries

The keys of entries that are set one after the other stay different, and each of them is found with
the value that it was given last.
-/

namespace DeferredSave.Entries

variable {α : Type} {key : String} {value : α} {entries : List (String × α)}

theorem mem_of_lookup (h : entries.lookup key = some value) : (key, value) ∈ entries := by
  obtain ⟨before, after, rfl, -⟩ := List.lookup_eq_some_iff.1 h
  simp

theorem lookup_of_mem (hnodup : (keys entries).Nodup) (hmem : (key, value) ∈ entries) :
    entries.lookup key = some value := by
  induction entries with
  | nil => cases hmem
  | cons e rest ih =>
    obtain ⟨hnot, hrest⟩ := List.nodup_cons.1 hnodup
    rcases List.mem_cons.1 hmem with rfl | hmem
    · simp
    · -- the first entry is one of another key
      have hne : (key == e.1) = false := by
        rw [beq_eq_false_iff_ne]
        rintro rfl
        exact hnot (List.mem_map.2 ⟨_, hmem, rfl⟩)
      rw [List.lookup_cons, hne]
      exact ih hrest hmem

theorem contains_iff : contains key entries = true ↔ key ∈ keys entries := by
  simp [contains, keys]

theorem exists_lookup_of_contains (h : contains key entries = true) :
    ∃ value, entries.lookup key = some value := by
  apply Option.isSome_iff_exists.1
  obtain ⟨e, he, hkey⟩ := List.any_eq_true.1 h
  exact List.lookup_isSome_iff.2 ⟨e, he, by simpa using (of_decide_eq_true hkey).symm⟩

theorem lookup_erase_of_ne {other : String} (h : other ≠ key) (entries : List (String × α)) :
    (erase key entries).lookup other = entries.lookup other := by
  unfold erase
  induction entries with
  | nil => rfl
  | cons e rest ih =>
    obtain ⟨k, v⟩ := e
    by_cases hk : k = key
    · have hne : (other == k) = false := by simpa [hk] using h
      simpa [hk, List.lookup_cons, hk ▸ hne] using ih
    · simp only [List.filter_cons, hk, ne_eq, not_false_eq_true, decide_true, if_true,
        List.lookup_cons, ih]

theorem mem_put {e : String × α} (h : e ∈ put key value entries) :
    e = (key, value) ∨ e ∈ entries := by
  induction entries with
  | nil => exact .inl (List.mem_singleton.1 h)
  | cons first rest ih =>
    unfold put at h
    split at h
    · rename_i hkey
      rcases List.mem_cons.1 h with rfl | h
      · exact .inl (by rw [hkey])
      · exact .inr (List.mem_cons_of_mem _ h)
    · rcases List.mem_cons.1 h with rfl | h
      · exact .inr List.mem_cons_self
      · exact (ih h).imp_right (List.mem_cons_of_mem _)

theorem lookup_map {β : Type} (f : String → α → β) (key : String) (entries : List (String × α)) :
    (entries.map fun e => (e.1, f e.1 e.2)).lookup key = (entries.lookup key).map (f key) := by
  induction entries with
  | nil => rfl
  | cons e rest ih =>
    obtain ⟨k, v⟩ := e
    by_cases hk : key = k
    · subst hk
      simp
    · have hne : (key == k) = false := by simpa using hk
      simp only [List.map_cons, List.lookup_cons, hne, ih]

/-- Setting the value of a key that is there changes nothing else. -/
theorem put_eq_map (hnodup : (keys entries).Nodup) (hkey : key ∈ keys entries) (value : α) :
    put key value entries = entries.map fun e => (e.1, if e.1 = key then value else e.2) := by
  induction entries with
  | nil => cases hkey
  | cons e rest ih =>
    obtain ⟨k, v⟩ := e
    obtain ⟨hnot, hrest⟩ := List.nodup_cons.1 hnodup
    by_cases hk : k = key
    · -- no later entry is one of the key
      subst hk
      have hsame : rest.map (fun e => (e.1, if e.1 = k then value else e.2)) = rest := by
        refine (List.map_congr_left fun e he => ?_).trans (List.map_id rest)
        rw [if_neg fun heq => hnot (List.mem_map.2 ⟨e, he, heq⟩)]
        rfl
      simp [put, hsame]
    · have hmem : key ∈ keys rest := (List.mem_cons.1 hkey).resolve_left (Ne.symm hk)
      simp [put, hk, ih hrest hmem]

/-- Sets entries one after the other. -/
def putAll (added entries : List (String × α)) : List (String × α) :=
  added.foldl (fun entries e => put e.1 e.2 entries) entries

theorem mem_putAll {e : String × α} {added : List (String × α)} (h : e ∈ putAll added entries) :
    e ∈ entries ∨ e ∈ added := by
  induction added generalizing entries with
  | nil => exact .inl h
  | cons first rest ih =>
    rcases ih h with hput | hrest
    · obtain rfl | hmem := mem_put hput
      · exact .inr List.mem_cons_self
      · exact .inl hmem
    · exact .inr (List.mem_cons_of_mem _ hrest)

theorem mem_of_mem_ofList {e : String × α} (h : e ∈ ofList entries) : e ∈ entries :=
  (mem_putAll h).resolve_left List.not_mem_nil

/-- The value of the last entry of a key. -/
def last? (key : String) (entries : List (String × α)) : Option α :=
  (entries.reverse.find? (·.1 = key)).map (·.2)

theorem last?_cons (key : String) (e : String × α) (rest : List (String × α)) :
    last? key (e :: rest) = (last? key rest).or (if e.1 = key then some e.2 else none) := by
  simp only [last?, List.reverse_cons, List.find?_append, List.find?_singleton, decide_eq_true_eq]
  cases rest.reverse.find? (·.1 = key) with
  | some found => rfl
  | none => split <;> rfl

theorem last?_append (key : String) (before after : List (String × α)) :
    last? key (before ++ after) = (last? key after).or (last? key before) := by
  simp only [last?, List.reverse_append, List.find?_append]
  cases after.reverse.find? (·.1 = key) <;> rfl

/-- Entries that are left out by their keys hide no others. -/
theorem last?_filter (keep : String → Bool) (key : String) (entries : List (String × α)) :
    last? key (entries.filter fun e => keep e.1) =
      if keep key then last? key entries else none := by
  induction entries with
  | nil => simp [last?]
  | cons e rest ih =>
    by_cases hkey : e.1 = key
    · subst hkey
      by_cases hkeep : keep e.1 = true
      · simp only [List.filter_cons, hkeep, if_true, last?_cons, ih]
      · simpa only [List.filter_cons, hkeep, if_false, Bool.false_eq_true] using ih
    · simp only [List.filter_cons]
      split <;> simp only [last?_cons, ih, if_neg hkey, Option.or_none]

/-- A key is found with the value that it was given last, or else with the one that it had. -/
theorem lookup_putAll (key : String) (added entries : List (String × α)) :
    (putAll added entries).lookup key = (last? key added).or (entries.lookup key) := by
  induction added generalizing entries with
  | nil => rfl
  | cons e rest ih =>
    rw [putAll, List.foldl_cons, ← putAll, ih, last?_cons, Option.or_assoc]
    congr 1
    split
    · next h => rw [← h, lookup_put_self, Option.some_or]
    · next h => rw [lookup_put_of_ne (Ne.symm h), Option.none_or]

theorem exists_last?_of_mem (h : (key, value) ∈ entries) :
    ∃ found, last? key entries = some found := by
  refine Option.isSome_iff_exists.1 ?_
  rw [last?, Option.isSome_map, List.find?_isSome]
  exact ⟨(key, value), List.mem_reverse.2 h, by simp⟩

theorem mem_of_last? (h : last? key entries = some value) : (key, value) ∈ entries := by
  obtain ⟨e, he, rfl⟩ := Option.map_eq_some_iff.1 h
  have hkey : e.1 = key := by simpa using List.find?_some he
  exact hkey ▸ List.mem_reverse.1 (List.mem_of_find?_eq_some he)

end DeferredSave.Entries
