import DeferredSave.Proofs.Store.Memory
import Mathlib.Data.List.Dedup
import Mathlib.Data.List.Nodup

/-!
# A store in memory as a map

What a store in memory holds can be told from what was listed and written, without the store: of
each key the row that was listed last, with the last value that an accepted batch gave it
(`Categories.rowAfter`). A batch is accepted if all its keys were listed; otherwise nothing is
written. A load lists just these rows (`MemoryStore.store_is_a_map`).
-/

namespace DeferredSave

/-- A value that is written, when, and in whose name. -/
structure Write where
  value : String
  time : Stamp
  author : Option String

/-- The setting with a value that is written to it. -/
def Setting.written (s : Setting) (w : Write) : Setting :=
  { s with value := w.value, updatedAt := w.time, updatedBy := w.author }

/-- The setting with what is written to it last, if anything is. -/
def Setting.overwritten (s : Setting) (w? : Option Write) : Setting := w?.elim s s.written

/-- The row with what is written to it last, if anything is. -/
def Row.overwritten (row : Row) (w? : Option Write) : Row :=
  { row with setting := row.setting.overwritten w? }

/-- What happens to a store in memory. -/
inductive StoreEvent where
  | update (now : Stamp) (batch : Batch)
  | fetch
  /-- From now on another author is named. -/
  | name (actor : Option String)

/-- Who is named as the author after events. -/
def authorAfter : Option String → List StoreEvent → Option String
  | actor, [] => actor
  | actor, .update _ _ :: events | actor, .fetch :: events => authorAfter actor events
  | _, .name actor :: events => authorAfter actor events

/-! ## What was listed and written -/

namespace Categories

/-- The rows of a seed, in order, each under its key. -/
def listed (seed : Categories) : List (String × Row) :=
  seed.flatMap fun (category, settings) => settings.map fun s => (s.key, ⟨category, s⟩)

/-- The keys of a seed, with repetitions. -/
def keys (seed : Categories) : List String := Entries.keys seed.listed

/-- Whether a store with that seed accepts a batch. -/
def Accepts (seed : Categories) (batch : Batch) : Prop :=
  batch.entries ≠ [] ∧ ∀ key ∈ batch.keys, key ∈ seed.keys

instance (seed : Categories) (batch : Batch) : Decidable (seed.Accepts batch) :=
  inferInstanceAs (Decidable (_ ∧ _))

/-- All that is written in the course of events, in order. -/
def writes (seed : Categories) : Option String → List StoreEvent → List (String × Write)
  | _, [] => []
  | actor, .update now batch :: events =>
    (if seed.Accepts batch then batch.entries.map fun e => (e.1, ⟨e.2, now, actor⟩) else []) ++
      seed.writes actor events
  | actor, .fetch :: events => seed.writes actor events
  | _, .name actor :: events => seed.writes actor events

/-- The row of a key after events: the one that was listed last, with what was written last. -/
def rowAfter (seed : Categories) (actor : Option String) (events : List StoreEvent)
    (key : String) : Option Row :=
  (Entries.last? key seed.listed).map
    (·.overwritten (Entries.last? key (seed.writes actor events)))

/-- Categories that list the rows of a map, each key once and in order, under the category of its
row. -/
structure Lists (categories : Categories) (row : String → Option Row) : Prop where
  rows : ∀ category s, (∃ settings, (category, settings) ∈ categories ∧ s ∈ settings) ↔
    row s.key = some ⟨category, s⟩
  once : (categories.flatMap fun e => e.2.map (·.key)).Nodup
  ascending : ∀ e ∈ categories, e.2.Pairwise (·.key < ·.key)
  named : (Entries.keys categories).Nodup
  inhabited : ∀ e ∈ categories, e.2 ≠ []

end Categories

theorem Entries.last?_map_write (key : String) (entries : List (String × String)) (now : Stamp)
    (actor : Option String) :
    last? key (entries.map fun e => (e.1, (⟨e.2, now, actor⟩ : Write))) =
      (last? key entries).map fun value => ⟨value, now, actor⟩ := by
  induction entries with
  | nil => rfl
  | cons e rest ih =>
    rw [List.map_cons, last?_cons, last?_cons, ih, Option.map_or]
    congr 1
    split <;> rfl

@[simp] theorem Setting.written_overwritten (s : Setting) (w? : Option Write) (w : Write) :
    (s.overwritten w?).written w = s.written w := by
  cases w? <;> rfl

@[simp] theorem Setting.key_overwritten (s : Setting) (w? : Option Write) :
    (s.overwritten w?).key = s.key := by
  cases w? <;> rfl

@[simp] theorem Row.setting_overwritten (row : Row) (w? : Option Write) :
    (row.overwritten w?).setting = row.setting.overwritten w? := rfl

/-- Of two writes to a row the second one stays. -/
theorem Row.overwritten_overwritten (row : Row) (first? second? : Option Write) :
    (row.overwritten first?).overwritten second? = row.overwritten (second?.or first?) := by
  cases second? with
  | none => rfl
  | some w => exact congrArg (Row.mk row.category) (row.setting.written_overwritten first? w)

namespace MemoryStore

variable {m m' : MemoryStore}

/-! ## Stores that are written to -/

/-- The store with what is written to each of its rows. -/
def overwritten (m : MemoryStore) (w? : String → Option Write) : MemoryStore :=
  { m with rows := m.rows.map fun e => (e.1, e.2.overwritten (w? e.1)) }

@[simp] theorem actor_overwritten (m : MemoryStore) (w? : String → Option Write) :
    (m.overwritten w?).actor = m.actor := rfl

@[simp] theorem keys_overwritten (m : MemoryStore) (w? : String → Option Write) :
    Entries.keys (m.overwritten w?).rows = Entries.keys m.rows := by
  simp [overwritten, Entries.keys, Function.comp_def]

theorem lookup_overwritten (m : MemoryStore) (w? : String → Option Write) (key : String) :
    (m.overwritten w?).rows.lookup key = (m.rows.lookup key).map (·.overwritten (w? key)) :=
  Entries.lookup_map (fun key (row : Row) => row.overwritten (w? key)) key m.rows

theorem overwritten_overwritten (m : MemoryStore) (first? second? : String → Option Write) :
    (m.overwritten first?).overwritten second? =
      m.overwritten fun key => (second? key).or (first? key) := by
  simp [overwritten, Function.comp_def, Row.overwritten_overwritten]

theorem overwritten_none (m : MemoryStore) : (m.overwritten fun _ => none) = m := by
  have hsame : (m.rows.map fun e => (e.1, e.2.overwritten none)) = m.rows := List.map_id m.rows
  rw [overwritten, hsame]

/-- What is written to the rows of a store counts for its keys only. -/
theorem overwritten_congr {w? w?' : String → Option Write}
    (h : ∀ key ∈ Entries.keys m.rows, w? key = w?' key) : m.overwritten w? = m.overwritten w?' := by
  have hrows : (m.rows.map fun e => (e.1, e.2.overwritten (w? e.1))) =
      m.rows.map fun e => (e.1, e.2.overwritten (w?' e.1)) := by
    refine List.map_congr_left fun e he => ?_
    rw [h e.1 (List.mem_map_of_mem he)]
  rw [overwritten, overwritten, hrows]

/-! ## One batch -/

/-- What a batch writes under a key. -/
def written? (m : MemoryStore) (now : Stamp) (entries : List (String × String)) (key : String) :
    Option Write :=
  (Entries.last? key entries).map fun value => ⟨value, now, m.actor⟩

/-- The answer to a batch: the row of each entry, with its value. -/
def answers (m : MemoryStore) (now : Stamp) (entries : List (String × String)) : List Setting :=
  entries.filterMap fun e =>
    (m.rows.lookup e.1).map fun row => row.setting.written ⟨e.2, now, m.actor⟩

theorem written?_cons (m : MemoryStore) (now : Stamp) (e : String × String)
    (rest : List (String × String)) (key : String) :
    m.written? now (e :: rest) key =
      (m.written? now rest key).or (if e.1 = key then some ⟨e.2, now, m.actor⟩ else none) := by
  rw [written?, Entries.last?_cons, Option.map_or]
  congr 1
  split <;> rfl

theorem answers_cons (m : MemoryStore) (now : Stamp) (e : String × String)
    (rest : List (String × String)) :
    m.answers now (e :: rest) =
      ((m.rows.lookup e.1).map fun row => row.setting.written ⟨e.2, now, m.actor⟩).toList ++
        m.answers now rest := by
  rw [answers, List.filterMap_cons]
  cases m.rows.lookup e.1 <;> rfl

theorem answers_overwritten (m : MemoryStore) (w? : String → Option Write) (now : Stamp)
    (entries : List (String × String)) :
    (m.overwritten w?).answers now entries = m.answers now entries := by
  unfold answers
  simp [lookup_overwritten, Function.comp_def]

theorem updateOne_eq (h : (Entries.keys m.rows).Nodup) (now : Stamp) (key value : String) :
    m.updateOne now key value =
      (m.overwritten (m.written? now [(key, value)]),
        (m.rows.lookup key).map fun row => row.setting.written ⟨value, now, m.actor⟩) := by
  have hwritten (key' : String) : m.written? now [(key, value)] key' =
      if key = key' then some ⟨value, now, m.actor⟩ else none :=
    m.written?_cons now (key, value) [] key'
  unfold updateOne
  cases hrow : m.rows.lookup key with
  | none =>
    -- no row is one of the key
    have hnone : m.overwritten (m.written? now [(key, value)]) = m := by
      refine (overwritten_congr fun key' hkey' => ?_).trans m.overwritten_none
      rw [hwritten, if_neg]
      rintro rfl
      obtain ⟨e, he, rfl⟩ := List.mem_map.1 hkey'
      rw [Entries.lookup_of_mem h he] at hrow
      cases hrow
    rw [hnone]
    rfl
  | some row =>
    have hmem := Entries.mem_of_lookup hrow
    have hput := Entries.put_eq_map h (List.mem_map.2 ⟨_, hmem, rfl⟩)
      (row.overwritten (some ⟨value, now, m.actor⟩))
    have hrows : (m.rows.map fun e =>
        (e.1, if e.1 = key then row.overwritten (some ⟨value, now, m.actor⟩) else e.2)) =
          (m.overwritten (m.written? now [(key, value)])).rows := by
      refine List.map_congr_left fun e he => ?_
      rw [hwritten]
      by_cases hkey : e.1 = key
      · subst hkey
        rw [Entries.lookup_of_mem h he] at hrow
        cases hrow
        rw [if_pos rfl, if_pos rfl]
      · rw [if_neg hkey, if_neg (Ne.symm hkey)]
        rfl
    rw [hrows] at hput
    exact Prod.ext (congrArg (fun rows => { m with rows }) hput) rfl

/-- Of the values that a batch gives to a key the last one stays. -/
theorem updateAll_eq (h : (Entries.keys m.rows).Nodup) (now : Stamp)
    (entries : List (String × String)) :
    m.updateAll now entries =
      (m.overwritten (m.written? now entries), m.answers now entries) := by
  induction entries generalizing m with
  | nil => exact Prod.ext m.overwritten_none.symm rfl
  | cons e rest ih =>
    obtain ⟨key, value⟩ := e
    have hone := updateOne_eq h now key value
    have hall : (m.overwritten (m.written? now [(key, value)])).updateAll now rest = _ :=
      ih (by rw [keys_overwritten]; exact h)
    have hlast : (fun key' => (m.written? now rest key').or (m.written? now [(key, value)] key')) =
        m.written? now ((key, value) :: rest) := by
      funext key'
      rw [written?_cons, written?_cons]
      rfl
    have hboth : (m.overwritten (m.written? now [(key, value)])).written? now rest =
        m.written? now rest := rfl
    rw [updateAll]
    simp only [hone, hall]
    rw [hboth, overwritten_overwritten, hlast, answers_overwritten]
    exact Prod.ext rfl (m.answers_cons now (key, value) rest).symm

/-- The store knows the keys of the seed and no others. -/
structure Knows (m : MemoryStore) (seed : Categories) : Prop extends Keyed m where
  keys : ∀ key, key ∈ Entries.keys m.rows ↔ key ∈ seed.keys

variable {seed : Categories}

theorem Knows.unknownKey?_eq (h : m.Knows seed) (batch : Batch) :
    m.unknownKey? batch = batch.keys.find? fun key => key ∉ seed.keys := by
  unfold unknownKey?
  congr 1
  funext key
  rw [Bool.eq_iff_iff, Bool.not_eq_true', Bool.eq_false_iff, ne_eq, Entries.contains_iff, h.keys,
    decide_eq_true_iff]

theorem Knows.update_accepted (h : m.Knows seed) {batch : Batch} (haccepts : seed.Accepts batch)
    (now : Stamp) :
    m.update now batch =
      (m.overwritten (m.written? now batch.entries), .ok (m.answers now batch.entries)) := by
  rw [update_of_known haccepts.1 (fun key hkey => (h.keys key).2 (haccepts.2 key hkey)),
    updateAll_eq h.distinct]

theorem update_empty {batch : Batch} (h : batch.entries = []) (now : Stamp) :
    m.update now batch = (m, .error (.save "No settings provided" (some 400) none)) := by
  have hempty : batch.isEmpty = true := by simp [Batch.isEmpty, h]
  rw [update, if_pos hempty]

theorem Knows.update_unknown (h : m.Knows seed) {batch : Batch} {key : String}
    (hkey : batch.keys.find? (· ∉ seed.keys) = some key) (now : Stamp) :
    m.update now batch = (m, .error (.unknownSetting key)) := by
  have hsome : batch.isEmpty = false := by
    have hmem := List.mem_of_find?_eq_some hkey
    cases hentries : batch.entries with
    | nil => simp [Batch.keys, hentries] at hmem
    | cons e rest => simp [Batch.isEmpty, hentries]
  rw [update, hsome, if_neg Bool.false_ne_true, h.unknownKey?_eq, hkey]

/-- A batch that is not accepted is refused, and nothing is written. -/
theorem Knows.update_refused (h : m.Knows seed) {batch : Batch} (hnot : ¬ seed.Accepts batch)
    (now : Stamp) : ∃ f, f.kind.isA .save = true ∧ m.update now batch = (m, .error f) := by
  by_cases hempty : batch.entries = []
  · exact ⟨_, rfl, update_empty hempty now⟩
  · have hunknown : ∃ key ∈ batch.keys, key ∉ seed.keys := by
      by_contra hall
      exact hnot ⟨hempty, fun key hkey => by_contra fun hkey' => hall ⟨key, hkey, hkey'⟩⟩
    obtain ⟨key, hkey⟩ : ∃ key, batch.keys.find? (· ∉ seed.keys) = some key := by
      refine Option.isSome_iff_exists.1 (List.find?_isSome.2 ?_)
      obtain ⟨key, hmem, hkey⟩ := hunknown
      exact ⟨key, hmem, decide_eq_true hkey⟩
    exact ⟨_, rfl, h.update_unknown hkey now⟩

/-- A batch that is answered with rows was accepted. -/
theorem Knows.of_update (h : m.Knows seed) {now : Stamp} {batch : Batch} {rows : List Setting}
    (hupdate : m.update now batch = (m', .ok rows)) :
    m' = m.overwritten (m.written? now batch.entries) ∧ rows = m.answers now batch.entries := by
  by_cases haccepts : seed.Accepts batch
  · rw [h.update_accepted haccepts] at hupdate
    cases hupdate
    exact ⟨rfl, rfl⟩
  · obtain ⟨f, -, hrefused⟩ := h.update_refused haccepts now
    rw [hrefused] at hupdate
    cases hupdate

/-! ## Events -/

/-- The store after an event. -/
def after (m : MemoryStore) : StoreEvent → MemoryStore
  | .update now batch => (m.update now batch).1
  | .fetch => m
  | .name actor => { m with actor }

/-- The store after events, one after the other. -/
def run (m : MemoryStore) (events : List StoreEvent) : MemoryStore := events.foldl after m

theorem Knows.overwritten (h : m.Knows seed) (w? : String → Option Write) :
    (m.overwritten w?).Knows seed where
  distinct := by
    rw [keys_overwritten]
    exact h.distinct
  own := by
    intro _ _ hrow
    obtain ⟨⟨key, row⟩, hmem, heq⟩ := List.mem_map.1 hrow
    cases heq
    exact (row.setting.key_overwritten _).trans (h.own key row hmem)
  keys := by
    rw [keys_overwritten]
    exact h.keys

theorem Knows.after (h : m.Knows seed) (ev : StoreEvent) : (m.after ev).Knows seed := by
  cases ev with
  | update now batch =>
    by_cases haccepts : seed.Accepts batch
    · rw [MemoryStore.after, h.update_accepted haccepts]
      exact h.overwritten _
    · obtain ⟨f, -, hrefused⟩ := h.update_refused haccepts now
      rw [MemoryStore.after, hrefused]
      exact h
  | fetch => exact h
  | name actor => exact ⟨⟨h.distinct, h.own⟩, h.keys⟩

theorem Knows.run (h : m.Knows seed) (events : List StoreEvent) : (m.run events).Knows seed := by
  induction events generalizing m with
  | nil => exact h
  | cons ev events ih => exact ih (h.after ev)

theorem knows_ofCategories (seed : Categories) (actor : Option String) :
    (ofCategories seed actor).Knows seed where
  toKeyed := keyed_ofCategories seed actor
  keys := by
    intro key
    have hkeys : Entries.keys (ofCategories seed actor).rows =
        Entries.keys (Entries.ofList seed.listed) := rfl
    rw [hkeys]
    constructor
    · intro hkey
      obtain ⟨e, he, rfl⟩ := List.mem_map.1 hkey
      exact List.mem_map_of_mem (Entries.mem_of_mem_ofList he)
    · intro hkey
      obtain ⟨e, he, rfl⟩ := List.mem_map.1 hkey
      obtain ⟨found, hlast⟩ := Entries.exists_last?_of_mem he
      have hlookup : (Entries.ofList seed.listed).lookup e.1 = some found :=
        (Entries.lookup_putAll e.1 seed.listed []).trans (by rw [hlast]; rfl)
      exact List.mem_map.2 ⟨_, Entries.mem_of_lookup hlookup, rfl⟩

/-- What events write to a store is what their accepted batches write, one after the other. -/
theorem Knows.run_eq (h : m.Knows seed) (events : List StoreEvent) :
    m.run events =
      { rows := (m.overwritten fun key => Entries.last? key (seed.writes m.actor events)).rows
        actor := authorAfter m.actor events } := by
  induction events generalizing m with
  | nil => exact congrArg (fun rows => { m with rows }) (congrArg rows m.overwritten_none.symm)
  | cons ev events ih =>
    have hrun : m.run (ev :: events) = (m.after ev).run events := rfl
    rw [hrun, ih (h.after ev)]
    cases ev with
    | update now batch =>
      by_cases haccepts : seed.Accepts batch
      · have hafter : m.after (.update now batch) =
            m.overwritten (m.written? now batch.entries) := by
          rw [MemoryStore.after, h.update_accepted haccepts]
        have hwrites : ∀ key,
            Entries.last? key (seed.writes m.actor (.update now batch :: events)) =
              (Entries.last? key (seed.writes m.actor events)).or
                (m.written? now batch.entries key) := by
          intro key
          rw [Categories.writes, if_pos haccepts, Entries.last?_append, Entries.last?_map_write]
          rfl
        rw [hafter, overwritten_overwritten, actor_overwritten]
        simp only [hwrites, authorAfter]
      · obtain ⟨f, -, hrefused⟩ := h.update_refused haccepts now
        have hafter : m.after (.update now batch) = m := by
          rw [MemoryStore.after, hrefused]
        rw [hafter, Categories.writes, if_neg haccepts, List.nil_append]
        rfl
    | fetch => rfl
    | name actor => rfl

/-- A store holds of each key the row that was listed last, with what was written to it last. -/
theorem lookup_run (seed : Categories) (actor : Option String) (events : List StoreEvent)
    (key : String) :
    ((ofCategories seed actor).run events).rows.lookup key = seed.rowAfter actor events key := by
  have hseed : (ofCategories seed actor).rows.lookup key = Entries.last? key seed.listed := by
    refine (Entries.lookup_putAll key seed.listed []).trans ?_
    rw [List.lookup_nil, Option.or_none]
  rw [(knows_ofCategories seed actor).run_eq events]
  have hwritten := lookup_overwritten (ofCategories seed actor)
    (fun key => Entries.last? key (seed.writes actor events)) key
  rw [hseed] at hwritten
  exact hwritten

/-! ## Loading -/

/-- The rows of a category, in order. -/
def listing (m : MemoryStore) (category : String) : List Setting :=
  ((m.rows.filter (·.2.category = category)).map (·.2.setting)).mergeSort keyLE

theorem fetch_eq (m : MemoryStore) :
    m.fetch = (m.rows.map (·.2.category)).eraseDups.map fun category =>
      (category, m.listing category) := rfl

theorem mem_fetch {category : String} {settings : List Setting} :
    (category, settings) ∈ m.fetch ↔
      settings = m.listing category ∧ ∃ key s, (key, ⟨category, s⟩) ∈ m.rows := by
  rw [fetch_eq, List.mem_map]
  constructor
  · rintro ⟨_, hmem, heq⟩
    cases heq
    obtain ⟨⟨key, row⟩, hrow, rfl⟩ := List.mem_map.1 (List.mem_eraseDups.1 hmem)
    exact ⟨rfl, key, row.setting, hrow⟩
  · rintro ⟨rfl, key, s, hrow⟩
    exact ⟨category, List.mem_eraseDups.2 (List.mem_map.2 ⟨_, hrow, rfl⟩), rfl⟩

theorem Keyed.mem_listing (h : m.Keyed) {category : String} {s : Setting} :
    s ∈ m.listing category ↔ m.rows.lookup s.key = some ⟨category, s⟩ := by
  rw [listing, List.mem_mergeSort, List.mem_map]
  constructor
  · rintro ⟨⟨key, row⟩, hmem, rfl⟩
    obtain ⟨hrow, hcategory⟩ := List.mem_filter.1 hmem
    obtain rfl : row.category = category := of_decide_eq_true hcategory
    rw [h.own key row hrow]
    exact Entries.lookup_of_mem h.distinct hrow
  · intro hlookup
    exact ⟨_, List.mem_filter.2 ⟨Entries.mem_of_lookup hlookup, decide_eq_true rfl⟩, rfl⟩

theorem Keyed.nodup_listing (h : m.Keyed) (category : String) :
    ((m.listing category).map (·.key)).Nodup := by
  have hkeys : ((m.rows.filter (·.2.category = category)).map (·.2.setting)).map (·.key) =
      (m.rows.filter (·.2.category = category)).map (·.1) := by
    rw [List.map_map]
    exact List.map_congr_left fun e he => h.own e.1 e.2 (List.mem_filter.1 he).1
  have hperm := (List.mergeSort_perm
    ((m.rows.filter (·.2.category = category)).map (·.2.setting)) keyLE).map (·.key)
  rw [hkeys] at hperm
  exact hperm.nodup_iff.2 ((List.filter_sublist.map Prod.fst).nodup h.distinct)

theorem keyLE_iff {a b : Setting} : keyLE a b = true ↔ a.key ≤ b.key := by
  rw [keyLE, Bool.not_eq_true', decide_eq_false_iff_not, String.not_lt]

theorem Keyed.ascending_listing (h : m.Keyed) (category : String) :
    (m.listing category).Pairwise (·.key < ·.key) := by
  have htrans (a b c : Setting) (hab : keyLE a b = true) (hbc : keyLE b c = true) :
      keyLE a c = true :=
    keyLE_iff.2 (String.le_trans (keyLE_iff.1 hab) (keyLE_iff.1 hbc))
  have htotal (a b : Setting) : (keyLE a b || keyLE b a) = true := by
    rw [Bool.or_eq_true, keyLE_iff, keyLE_iff]
    exact String.le_total a.key b.key
  have hsorted : (m.listing category).Pairwise fun a b => keyLE a b = true :=
    List.pairwise_mergeSort htrans htotal _
  have hdistinct : (m.listing category).Pairwise (·.key ≠ ·.key) :=
    List.pairwise_map.1 (h.nodup_listing category)
  refine (hsorted.and hdistinct).imp fun {a b} hab => ?_
  by_contra hnot
  exact hab.2 (String.le_antisymm (keyLE_iff.1 hab.1) (String.not_lt.1 hnot))

/-- A load lists what the store holds. -/
theorem Keyed.fetch_lists (h : m.Keyed) : m.fetch.Lists fun key => m.rows.lookup key where
  rows := by
    intro category s
    rw [← h.mem_listing]
    constructor
    · rintro ⟨settings, hmem, hs⟩
      rwa [(mem_fetch.1 hmem).1] at hs
    · intro hs
      have hlookup := h.mem_listing.1 hs
      exact ⟨_, mem_fetch.2 ⟨rfl, _, _, Entries.mem_of_lookup hlookup⟩, hs⟩
  once := by
    refine List.nodup_flatMap.2 ⟨?_, ?_⟩
    · rintro ⟨category, settings⟩ hmem
      obtain ⟨rfl, -⟩ := mem_fetch.1 hmem
      exact h.nodup_listing category
    · rw [fetch_eq, List.pairwise_map]
      refine (nodup_eraseDups (m.rows.map (·.2.category))).imp fun {a b} hne => ?_
      -- a key has one row, and so one category
      intro key ha hb
      obtain ⟨s, hs, rfl⟩ := List.mem_map.1 ha
      obtain ⟨s', hs', hkey⟩ := List.mem_map.1 hb
      have hfirst := h.mem_listing.1 hs
      have hsecond := h.mem_listing.1 hs'
      rw [hkey, hfirst] at hsecond
      cases hsecond
      exact hne rfl
  ascending := by
    rintro ⟨category, settings⟩ hmem
    obtain ⟨rfl, -⟩ := mem_fetch.1 hmem
    exact h.ascending_listing category
  named := m.nodup_keys_fetch
  inhabited := by
    rintro ⟨category, settings⟩ hmem
    obtain ⟨rfl, key, s, hrow⟩ := mem_fetch.1 hmem
    have hkey : s.key = key := h.own key _ hrow
    subst hkey
    exact List.ne_nil_of_mem (h.mem_listing.2 (Entries.lookup_of_mem h.distinct hrow))

/-! ## The whole -/

/-- How a store that holds some rows takes a batch: it refuses one that is empty or names a key that
the seed did not list, and stays as it is; from any other it takes the last value of each key, and
changes nothing else of its row. -/
structure TakesBatches (m : MemoryStore) (seed : Categories) (row : String → Option Row) :
    Prop where
  refused_iff : ∀ now batch,
    (∃ f, f.kind.isA .save = true ∧ m.update now batch = (m, .error f)) ↔
      batch.entries = [] ∨ ∃ key ∈ batch.keys, key ∉ seed.keys
  empty : ∀ now batch, batch.entries = [] →
    m.update now batch = (m, .error (.save "No settings provided" (some 400) none))
  unknown : ∀ now batch key, batch.keys.find? (· ∉ seed.keys) = some key →
    m.update now batch = (m, .error (.unknownSetting key))
  accepted : ∀ now batch, batch.entries ≠ [] → (∀ key ∈ batch.keys, key ∈ seed.keys) →
    ∃ m', m.update now batch =
        (m', .ok (batch.entries.filterMap fun e =>
          (row e.1).map fun r => r.setting.written ⟨e.2, now, m.actor⟩)) ∧
      ∀ key, m'.rows.lookup key =
        (row key).map (·.overwritten
          ((Entries.last? key batch.entries).map fun value => ⟨value, now, m.actor⟩))

theorem Knows.takesBatches (h : m.Knows seed) :
    m.TakesBatches seed fun key => m.rows.lookup key where
  refused_iff := by
    intro now batch
    have hnot : ¬ seed.Accepts batch ↔
        batch.entries = [] ∨ ∃ key ∈ batch.keys, key ∉ seed.keys := by
      simp only [Categories.Accepts, not_and_or, not_not, not_forall, exists_prop]
    rw [← hnot]
    refine ⟨?_, fun hnot => h.update_refused hnot now⟩
    rintro ⟨f, -, hrefused⟩ haccepts
    have hanswer := congrArg Prod.snd hrefused
    rw [h.update_accepted haccepts] at hanswer
    cases hanswer
  empty := fun now batch hempty => update_empty hempty now
  unknown := fun now batch key hkey => h.update_unknown hkey now
  accepted := by
    intro now batch hne hknown
    exact ⟨_, h.update_accepted ⟨hne, hknown⟩ now, fun key => lookup_overwritten _ _ key⟩

/-- At any time a store in memory is the map that its seed and the events since describe: of each
key that was listed it holds the row that was listed last, with the last value that an accepted
batch gave it. A batch is taken as a whole or refused as a whole, and a load lists these rows and no
others. -/
theorem store_is_a_map (seed : Categories) (actor : Option String) (events : List StoreEvent) :
    let m := (ofCategories seed actor).run events
    let row := seed.rowAfter actor events
    (∀ key, m.rows.lookup key = row key) ∧
      (∀ key, (row key).isSome = true ↔ key ∈ seed.keys) ∧
      m.actor = authorAfter actor events ∧
      m.TakesBatches seed row ∧
      m.fetch.Lists row := by
  intro m row
  have hknows : m.Knows seed := (knows_ofCategories seed actor).run events
  have hrow : (fun key => m.rows.lookup key) = row := funext (lookup_run seed actor events)
  refine ⟨congrFun hrow, fun key => ?_, ?_, hrow ▸ hknows.takesBatches,
    hrow ▸ hknows.toKeyed.fetch_lists⟩
  · rw [← hrow, ← hknows.keys]
    constructor
    · intro hsome
      obtain ⟨row, hlookup⟩ := Option.isSome_iff_exists.1 hsome
      exact List.mem_map.2 ⟨_, Entries.mem_of_lookup hlookup, rfl⟩
    · intro hkey
      obtain ⟨row, hlookup⟩ := Entries.exists_lookup_of_contains (Entries.contains_iff.2 hkey)
      exact Option.isSome_iff_exists.2 ⟨row, hlookup⟩
  · have heq := (knows_ofCategories seed actor).run_eq events
    exact congrArg MemoryStore.actor heq

end MemoryStore

end DeferredSave
