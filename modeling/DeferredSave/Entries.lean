/-! Lists of entries in which every key has one place.

Such a list keeps the order in which its keys came in. Setting a key that is there changes its
value and not its place. -/

namespace DeferredSave.Entries

variable {α : Type}

/-- Sets the value of a key: in its place if the key is there, at the end otherwise. -/
def put (key : String) (value : α) : List (String × α) → List (String × α)
  | [] => [(key, value)]
  | (k, v) :: rest => if k = key then (k, value) :: rest else (k, v) :: put key value rest

/-- Joins repeated keys: the first place, the last value. -/
def ofList (entries : List (String × α)) : List (String × α) :=
  entries.foldl (fun joined (k, v) => put k v joined) []

/-- Drops the entry of a key. -/
def erase (key : String) (entries : List (String × α)) : List (String × α) :=
  entries.filter (·.1 ≠ key)

/-- The keys in order. -/
def keys (entries : List (String × α)) : List String := entries.map (·.1)

/-- Whether a key has an entry. -/
def contains (key : String) (entries : List (String × α)) : Bool :=
  entries.any (·.1 = key)

theorem keys_put (key : String) (value : α) (entries : List (String × α)) :
    keys (put key value entries) =
      if key ∈ keys entries then keys entries else keys entries ++ [key] := by
  induction entries with
  | nil => simp [put, keys]
  | cons e rest ih =>
    obtain ⟨k, v⟩ := e
    simp only [keys] at ih ⊢
    by_cases h : k = key
    · simp [put, h]
    · have : ¬ key = k := fun h' => h h'.symm
      by_cases hk : key ∈ rest.map (·.1)
      · simp_all [put]
      · simp_all [put]

theorem nodup_keys_put {entries : List (String × α)} (h : (keys entries).Nodup) (key : String)
    (value : α) : (keys (put key value entries)).Nodup := by
  rw [keys_put]
  split
  · exact h
  · next hk => exact List.nodup_append.2 ⟨h, by simp, by
      intro a ha b hb
      rw [List.mem_singleton.1 hb]
      exact fun he => hk (he ▸ ha)⟩

theorem nodup_keys_ofList (entries : List (String × α)) : (keys (ofList entries)).Nodup := by
  have go (es joined : List (String × α)) (h : (keys joined).Nodup) :
      (keys (es.foldl (fun joined (k, v) => put k v joined) joined)).Nodup := by
    induction es generalizing joined with
    | nil => exact h
    | cons e es ih => exact ih _ (nodup_keys_put h e.1 e.2)
  exact go entries [] (by simp [keys])

theorem put_of_not_mem {key : String} {entries : List (String × α)} (h : key ∉ keys entries)
    (value : α) : put key value entries = entries ++ [(key, value)] := by
  induction entries with
  | nil => rfl
  | cons e rest ih =>
    simp only [keys, List.map_cons, List.mem_cons, not_or] at h ih
    simp [put, Ne.symm h.1, ih h.2]

/-- Entries with different keys are already joined. -/
theorem ofList_of_nodup {entries : List (String × α)} (h : (keys entries).Nodup) :
    ofList entries = entries := by
  have go (es joined : List (String × α)) (h : (keys (joined ++ es)).Nodup) :
      es.foldl (fun joined (k, v) => put k v joined) joined = joined ++ es := by
    induction es generalizing joined with
    | nil => simp
    | cons e es ih =>
      obtain ⟨k, v⟩ := e
      have hnew : k ∉ keys joined := by
        simp only [keys, List.map_append, List.map_cons, List.nodup_append] at h
        exact fun hk => h.2.2 _ hk _ (by simp) rfl
      simp only [List.foldl_cons, put_of_not_mem hnew]
      rw [ih _ (by simpa using h)]
      simp
  exact go entries [] h

@[simp] theorem lookup_put_self (key : String) (value : α) (entries : List (String × α)) :
    (put key value entries).lookup key = some value := by
  induction entries with
  | nil => simp [put]
  | cons e rest ih =>
    obtain ⟨k, v⟩ := e
    by_cases h : k = key
    · simp [put, h]
    · have : (key == k) = false := by simpa using fun h' => h h'.symm
      simp [put, h, List.lookup_cons, this, ih]

theorem lookup_put_of_ne {key other : String} (h : other ≠ key) (value : α)
    (entries : List (String × α)) :
    (put key value entries).lookup other = entries.lookup other := by
  have hne : (other == key) = false := by simpa using h
  induction entries with
  | nil => simp [put, List.lookup_cons, hne]
  | cons e rest ih =>
    obtain ⟨k, v⟩ := e
    by_cases hk : k = key
    · subst hk
      simp [put, List.lookup_cons, hne]
    · simp [put, hk, List.lookup_cons, ih]

end DeferredSave.Entries
