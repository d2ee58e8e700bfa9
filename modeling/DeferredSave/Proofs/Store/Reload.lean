import DeferredSave.Proofs.Course.Loading
import DeferredSave.Proofs.Course.Underway
import DeferredSave.Proofs.Store.Written

/-!
# Patching and loading

The rows that a store in memory answers a batch with, put into the catalog of before, make the
catalog that is loaded afterwards: a batch moves no row, and the last answer for a key is the row
that is held of it (`MemoryStore.Keyed.withUpdates_fetch`). So if nobody else writes, an engine that
has saved a batch goes on with one and the same catalog, whether the load after the save brought it
or not (`MemoryStore.patching_agrees_with_loading`).
-/

namespace DeferredSave

namespace MemoryStore

variable {m m' : MemoryStore}

/-! ## The rows of an answer -/

/-- Of a key that is held, the last answer to a batch is its row with what the batch writes. -/
theorem Keyed.lastOf?_answers (h : m.Keyed) {key : String} {row : Row}
    (hrow : m.rows.lookup key = some row) (now : Stamp) (entries : List (String × String)) :
    Catalog.lastOf? (m.answers now entries) key =
      (m.written? now entries key).map row.setting.written := by
  induction entries with
  | nil => rfl
  | cons e rest ih =>
    rw [answers_cons, Catalog.lastOf?_append, ih, written?_cons, Option.map_or]
    congr 1
    by_cases hkey : e.1 = key
    · -- the answer to such an entry is the row of the key
      have hown : row.setting.key = key := h.own key row (Entries.mem_of_lookup hrow)
      rw [if_pos hkey, hkey, hrow]
      exact (Catalog.lastOf?_cons _ [] key).trans (if_pos hown)
    · rw [if_neg hkey]
      cases hfound : m.rows.lookup e.1 with
      | none => rfl
      | some found =>
        have hother : found.setting.key ≠ key :=
          fun heq => hkey ((h.own e.1 found (Entries.mem_of_lookup hfound)).symm.trans heq)
        exact (Catalog.lastOf?_cons _ [] key).trans (if_neg hother)

/-! ## Loading after a batch -/

/-- What is written to rows changes neither their categories nor their places. -/
theorem Keyed.listing_overwritten (h : m.Keyed) (w? : String → Option Write) (category : String) :
    (m.overwritten w?).listing category =
      (m.listing category).map fun s => s.overwritten (w? s.key) := by
  have hunsorted :
      ((m.overwritten w?).rows.filter (·.2.category = category)).map (·.2.setting) =
        ((m.rows.filter (·.2.category = category)).map (·.2.setting)).map
          fun s => s.overwritten (w? s.key) := by
    rw [overwritten, List.filter_map, List.map_map, List.map_map]
    refine List.map_congr_left fun e he => ?_
    have hkey : e.2.setting.key = e.1 := h.own e.1 e.2 (List.mem_filter.1 he).1
    simp only [Function.comp_apply, Row.setting_overwritten, hkey]
  rw [listing, listing, hunsorted]
  refine (List.map_mergeSort fun a _ b _ => ?_).symm
  simp only [keyLE, Setting.key_overwritten]

theorem Keyed.fetch_overwritten (h : m.Keyed) (w? : String → Option Write) :
    (m.overwritten w?).fetch =
      m.fetch.map fun e => (e.1, e.2.map fun s => s.overwritten (w? s.key)) := by
  have hcategories : (m.overwritten w?).rows.map (·.2.category) = m.rows.map (·.2.category) := by
    -- a write leaves the category as it is
    rw [overwritten, List.map_map]
    rfl
  rw [fetch_eq, fetch_eq, hcategories, List.map_map]
  refine List.map_congr_left fun category _ => ?_
  rw [h.listing_overwritten]
  rfl

/-- The answers to a batch, put into the catalog of before, make the one of afterwards. -/
theorem Keyed.withUpdates_fetch (h : m.Keyed) (now : Stamp) (entries : List (String × String)) :
    (Catalog.mk m.fetch).withUpdates (m.answers now entries) =
      ⟨(m.overwritten (m.written? now entries)).fetch⟩ := by
  rw [h.fetch_overwritten, Catalog.withUpdates]
  refine congrArg Catalog.mk (List.map_congr_left ?_)
  rintro ⟨category, settings⟩ hmem
  obtain ⟨rfl, -⟩ := mem_fetch.1 hmem
  refine congrArg (Prod.mk category) (List.map_congr_left fun s hs => ?_)
  rw [h.lastOf?_answers (h.mem_listing.1 hs)]
  cases m.written? now entries s.key <;> rfl

end MemoryStore

/-! ## The load after a save -/

namespace Course

variable {ω : Type} {acting : Engine.Acting ω} {admitted : Engine ω → Call ω → Prop}
  {c c' : Course ω} {ev : Event ω} {old new : Categories} {batch : Batch} {rows : List Setting}

/-- What can happen until a flight is answered, if nobody else writes: a load that still counts
lists what the store held before the batch, or what it holds with it. -/
def Meanwhile (old new : Categories) (c : Course ω) : Event ω → Prop
  | .turn (.updated _) | .turn (.reloaded _) => False
  | .turn (.loaded load (.ok categories)) =>
    c.engine.outdated load = true ∨ categories = old ∨ categories = new
  | _ => True

/-- The catalog is the one of before a batch or the one of afterwards. -/
def OldOrNew (old new : Categories) (c : Course ω) : Prop :=
  c.engine.catalog = ⟨old⟩ ∨ c.engine.catalog = ⟨new⟩

/-- The load after a save is still to be answered. The batch was sent from the catalog of before and
is answered with its rows. -/
inductive AwaitsLoad (old new : Categories) (batch : Batch) (rows : List Setting) :
    Course ω → Prop where
  | intro {c c' c'' : Course ω} {acting : Engine.Acting ω} :
      c.engine.flight = .saving batch → c.engine.catalog = ⟨old⟩ →
      c.Leads (Meanwhile old new) (Listening fun _ _ => True) c' →
      Listening (fun _ _ => True) acting →
      (c'.after acting (.turn (.updated (.ok rows)))).Leads (Meanwhile old new)
        (Listening fun _ _ => True) c'' →
      AwaitsLoad old new batch rows c''

theorem Meanwhile.oldOrNew (h : c.Meanwhile old new ev) (hlisten : Listening admitted acting)
    (heither : c.OldOrNew old new) : (c.after acting ev).OldOrNew old new := by
  have hcatalog : Engine.Restocked c.engine ev (c.after acting ev).engine.catalog :=
    (Engine.shelves_after hlisten c.engine ev).catalog
  cases hcatalog with
  | stays hstays => exact heither.imp hstays.trans hstays.trans
  | loaded hev hloaded hopen =>
    subst hev
    have hcounts : ¬ c.engine.outdated c.engine.loads = true := by simp [Engine.outdated, hopen]
    obtain rfl | rfl := h.resolve_left hcounts
    · exact .inl hloaded
    · exact .inr hloaded
  | reloaded _ hev =>
    subst hev
    exact h.elim
  | patched _ hev =>
    subst hev
    exact h.elim

theorem Meanwhile.flight (h : c.Meanwhile old new ev) (hlisten : Listening admitted acting)
    (hready : c.Ready ev) (hbatch : c.engine.flight.batch? = some batch) :
    (c.after acting ev).engine.flight = c.engine.flight := by
  refine Engine.flight_stays hlisten (Engine.flying_of_batch hbatch) ?_ ?_ ?_
  · rintro rfl
    have hwaiting : c.engine.flight = .waiting := hready
    rw [hwaiting] at hbatch
    cases hbatch
  · rintro answer rfl
    exact h
  · rintro answer rfl
    exact h

theorem Leads.meanwhile (h : c.Leads (Meanwhile old new) (Listening admitted) c')
    (hbatch : c.engine.flight.batch? = some batch) (heither : c.OldOrNew old new) :
    c'.engine.flight = c.engine.flight ∧ c'.OldOrNew old new := by
  induction h with
  | refl => exact ⟨rfl, heither⟩
  | step _ hlisten hready hev ih =>
    obtain ⟨hflight, heither'⟩ := ih
    exact ⟨(hev.flight hlisten hready (hflight ▸ hbatch)).trans hflight,
      hev.oldOrNew hlisten heither'⟩

/-- Until the load is answered the flight waits for it. -/
theorem AwaitsLoad.reloading (h : c.AwaitsLoad old new batch rows)
    (hopen : c.engine.closed = false) :
    (∃ load, c.engine.flight = .reloading batch rows load) ∧ c.OldOrNew old new := by
  obtain @⟨c₀, c₁, _, acting, hsaving, hold, hsave, hlisten, hload⟩ := h
  have hsent : c₀.engine.flight.batch? = some batch := by rw [hsaving]; rfl
  obtain ⟨hflight, heither⟩ := hsave.meanwhile hsent (.inl hold)
  have hreloads : c₁.engine.updated acting (.ok rows) = c₁.engine.reloads batch rows :=
    Engine.updated_ok (hflight.trans hsaving) (Engine.open_of_after hlisten (hload.was_open hopen))
  -- when the save is answered, the load starts with the catalog that is there
  have hstarted : (c₁.after acting (.turn (.updated (.ok rows)))).engine.flight =
      .reloading batch rows (c₁.engine.loads + 1) := by
    change (c₁.engine.updated acting (.ok rows)).flight = _
    rw [hreloads]
    rfl
  have hkept : (c₁.after acting (.turn (.updated (.ok rows)))).OldOrNew old new := by
    change OldOrNew old new { engine := c₁.engine.updated acting (.ok rows) }
    rw [hreloads]
    exact heither
  have hcarries : (c₁.after acting (.turn (.updated (.ok rows)))).engine.flight.batch? =
      some batch := by
    rw [hstarted]
    rfl
  obtain ⟨hawaits, heither'⟩ := hload.meanwhile hcarries hkept
  exact ⟨⟨_, hawaits.trans hstarted⟩, heither'⟩

/-- The catalog after a save is the same, whether the load brought it or not. -/
theorem AwaitsLoad.catalog_after (h : c.AwaitsLoad old new batch rows)
    (hopen : c.engine.closed = false) (hpatched : (Catalog.mk old).withUpdates rows = ⟨new⟩)
    (hlisten : Listening admitted acting) {answer : Except Failure Categories}
    (hanswer : ∀ categories, answer = .ok categories → categories = new)
    (hfetch : ∀ f, answer = .error f → f.isFetch = true) :
    (c.after acting (.turn (.reloaded answer))).engine.catalog = ⟨new⟩ := by
  obtain ⟨⟨load, hflight⟩, heither⟩ := h.reloading hopen
  change (c.engine.reloaded acting answer).catalog = _
  rw [Engine.reloaded_catalog hlisten hflight hopen hfetch]
  cases hinstalls : c.engine.installs load answer with
  | true =>
    obtain ⟨categories, hok, -, hloaded, -⟩ := Engine.exists_of_installs hinstalls
    rw [if_pos rfl, hloaded, hanswer categories hok]
  | false =>
    rw [if_neg Bool.false_ne_true]
    obtain hold | hnew := heither
    · rw [hold, hpatched]
    · -- a load that was asked for from outside has brought the rows already
      rw [hnew, ← hpatched, Catalog.withUpdates_self]

end Course

/-! ## Either way -/

namespace MemoryStore

/-- The catalog with the rows that a store in memory answers a batch with is the catalog that the
store lists afterwards: the same categories with the same rows, each in the same order, so that
each key is found alike. If nobody else writes, an engine that has saved the batch therefore goes on
with this catalog in either case, whether the load after the save brings it, fails, or is overtaken
by another one. -/
theorem patching_agrees_with_loading (seed : Categories) (actor : Option String)
    (events : List StoreEvent) (now : Stamp) (batch : Batch) {m' : MemoryStore}
    {rows : List Setting}
    (hupdate : ((ofCategories seed actor).run events).update now batch = (m', .ok rows)) :
    let old := ((ofCategories seed actor).run events).fetch
    (Catalog.mk old).withUpdates rows = ⟨m'.fetch⟩ ∧
      (∀ key, ((Catalog.mk old).withUpdates rows).find? key = (Catalog.mk m'.fetch).find? key ∧
        ((Catalog.mk old).withUpdates rows).value? key = (Catalog.mk m'.fetch).value? key) ∧
      ∀ (ω : Type) (c : Course ω) (acting : Engine.Acting ω) (answer : Except Failure Categories),
        c.AwaitsLoad old m'.fetch batch rows → c.engine.closed = false →
        Listening (fun _ _ => True) acting →
        (∀ categories, answer = .ok categories → categories = m'.fetch) →
        (∀ f, answer = .error f → f.isFetch = true) →
        (c.after acting (.turn (.reloaded answer))).engine.catalog = ⟨m'.fetch⟩ := by
  intro old
  have hknows := (knows_ofCategories seed actor).run events
  obtain ⟨rfl, rfl⟩ := hknows.of_update hupdate
  have hpatched := hknows.toKeyed.withUpdates_fetch now batch.entries
  refine ⟨hpatched, fun key => by rw [hpatched]; exact ⟨rfl, rfl⟩, ?_⟩
  intro ω c acting answer hawaits hopen hlisten hanswer hfetch
  exact hawaits.catalog_after hopen hpatched hlisten hanswer hfetch

/-- Two rooms, of which the second one takes a key from the first. -/
def roomStore : MemoryStore := ofCategories (.ofValues .epoch
  [("hall", [("lamp", "off"), ("bell", "on")]), ("kitchen", [("oven", "off"), ("lamp", "dim")])])

def roomBatch : Batch := ⟨[("oven", "on"), ("lamp", "on")], [1, 2]⟩

def roomRows : List Setting := roomStore.answers .epoch roomBatch.entries

/-- The store with the batch. -/
def roomStored : MemoryStore := roomStore.overwritten (roomStore.written? .epoch roomBatch.entries)

/-- The batch is under way, and a load was asked for from outside. -/
def roomSaving : Course Unit :=
  Course.run .silent { engine := { Engine.new [] [] 1 1 with catalog := ⟨roomStore.fetch⟩ } }
    [.call (.change "oven" "on"), .call (.change "lamp" "on"), .call .flushNow, .turn .takeOff,
      .call .refresh]

/-- After the save, two loads from outside are answered. -/
def roomLoads : List (Event Unit) :=
  [.call .refresh, .turn (.loaded 3 (.ok roomStored.fetch)), .turn (.loaded 1 (.ok []))]

def roomReloading : Course Unit :=
  (roomSaving.after .silent (.turn (.updated (.ok roomRows)))).run .silent roomLoads

theorem roomReloading_awaitsLoad :
    roomReloading.AwaitsLoad roomStore.fetch roomStored.fetch roomBatch roomRows := by
  have hlisten : Listening (fun _ _ => True) (Engine.silent : Engine.Acting Unit) :=
    .aloof aloof_silent
  have hsaving : roomSaving.engine.flight = .saving roomBatch := by decide +kernel
  have hmeets : (roomSaving.after .silent (.turn (.updated (.ok roomRows)))).Meets
      (Course.Meanwhile roomStore.fetch roomStored.fetch) .silent roomLoads :=
    ⟨trivial, .inr (.inr rfl), .inl (by decide +kernel), trivial⟩
  exact .intro hsaving rfl .refl hlisten (hmeets.leads hlisten (by decide +kernel))

/-- When the load after a save fails that was overtaken, the rows of the save are put once more into
the catalog that has them already. -/
theorem overtaken_reload_agrees :
    roomStore.update .epoch roomBatch = (roomStored, .ok roomRows) ∧
      roomReloading.AwaitsLoad roomStore.fetch roomStored.fetch roomBatch roomRows ∧
      (roomReloading.after .silent
        (.turn (.reloaded (.error (.fetch "no answer" none none))))).engine.catalog =
          ⟨roomStored.fetch⟩ := by
  have hupdate : roomStore.update .epoch roomBatch = (roomStored, .ok roomRows) := by
    decide +kernel
  have hopen : roomReloading.engine.closed = false := by decide +kernel
  have hagrees := (patching_agrees_with_loading _ _ [] .epoch roomBatch hupdate).2.2
  refine ⟨hupdate, roomReloading_awaitsLoad, ?_⟩
  refine hagrees Unit _ _ _ roomReloading_awaitsLoad hopen (.aloof aloof_silent) nofun ?_
  rintro f ⟨⟩
  rfl

end MemoryStore

end DeferredSave
