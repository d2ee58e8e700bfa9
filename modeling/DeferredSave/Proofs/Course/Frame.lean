import DeferredSave.Proofs.Course.Stretch

/-!
# What moves and what stays

What each step of a call keeps is kept by all calls that listeners make (`Engine.Lasting.keeps`). So
whatever they call while they are told, the flight stays where it is, nothing is asked of the store,
and the catalog and its loads are left alone: it is the engine alone that moves the flight on
(`Engine.flown_after`). The edits on the other hand are left to calls, but for those of a batch that
is confirmed (`Engine.Steady.turn`).
-/

namespace DeferredSave

variable {ω : Type} {acting : Engine.Acting ω} {g g' g₀ : Engine ω}
  {admitted : Engine ω → Call ω → Prop}

namespace Engine

/-! ## What calls leave as it is -/

/-- A property that each step of an admitted call keeps which a listener can make. -/
structure Lasting (admitted : Engine ω → Call ω → Prop) (P : Engine ω → Prop) : Prop where
  unspoken : Unspoken P
  edit : ∀ {g : Engine ω} (key value : String), admitted g (.change key value) →
    g.closed = false → P g → P ((g.edit key value).shows .edit)
  /-- The quiet period starts anew or is stopped. -/
  quiet : ∀ {g : Engine ω} (quiet : Timer), P g → P { g with quiet }
  drop : ∀ {g : Engine ω} (keys? : Option (List String)), admitted g (.discard keys?) → P g →
    P { g with edits := (g.edits.discard keys?).1 }
  /-- Nothing is left to be shown, and no flight shows anything. -/
  rest : ∀ {g : Engine ω}, g.flying = false → g.showsEdits = true → g.edits.isEmpty = true → P g →
    P (g.shows .idle)
  close : ∀ {g : Engine ω}, P g → P { g with
    closed := true, quiet := g.quiet.cancel, shown := g.shown.cancel, requested := false }
  subscribe : ∀ {g : Engine ω} (listener : String) (reply? : Option (Reply ω)), P g →
    P (g.subscribe listener reply?)
  unsubscribe : ∀ {g : Engine ω} (handle : Nat), P g → P (g.unsubscribe handle)

namespace Lasting

variable {P : Engine ω → Prop}

theorem change (h : Lasting admitted P) (hkeeps : Keeps P acting) {key value : String}
    (hadm : admitted g (.change key value)) (hg : P g) : P (g.change acting key value).1 := by
  cases hc : g.closed with
  | true => rwa [change_of_closed hc]
  | false =>
    obtain ⟨g', htold, heq⟩ := change_of_open acting hc key value
    rw [heq]
    exact h.quiet _ (htold.keeps hkeeps (h.edit key value hadm hc hg))

theorem discard (h : Lasting admitted P) (hkeeps : Keeps P acting) {keys? : Option (List String)}
    (hadm : admitted g (.discard keys?)) (hg : P g) : P (g.discard acting keys?).1 := by
  have hdropped := h.drop keys? hadm hg
  rcases discard_cases acting g keys? with
    heq | ⟨hempty, heq | ⟨hflying, hshows, g', htold, heq⟩⟩
  · rwa [heq]
  · rw [heq]
    exact h.quiet _ hdropped
  · rw [heq]
    exact htold.keeps hkeeps (h.rest hflying hshows hempty (h.quiet _ hdropped))

/-- Provided that those keep it whom the call tells, a call that does not wait for the store keeps
it. -/
theorem callback (h : Lasting admitted P) (hkeeps : Keeps P acting) {c : Call ω}
    (hadm : admitted g c) (hwaits : c.waits = false) (hg : P g) : P (g.call acting c) := by
  cases c with
  | change key value => exact h.change hkeeps hadm hg
  | discard keys? => exact h.discard hkeeps hadm hg
  | flushNow => cases hwaits
  | refresh => cases hwaits
  | close =>
    change P g.close
    unfold Engine.close
    split
    · exact hg
    · exact h.close hg
  | subscribe listener reply? => exact h.subscribe listener reply? hg
  | unsubscribe handle => exact h.unsubscribe handle hg

theorem keeps (h : Lasting admitted P) (hlisten : Listening admitted acting) : Keeps P acting :=
  hlisten.keeps h.unspoken fun _ hkeeps _ _ hadm hwaits hg => h.callback hkeeps hadm hwaits hg

end Lasting

/-- A property that each step of an admitted call keeps, and what the other calls do as well. -/
structure Abiding (admitted : Engine ω → Call ω → Prop) (P : Engine ω → Prop) : Prop
    extends Lasting admitted P where
  request : ∀ {g : Engine ω}, g.flying = true → P g → P { g with requested := true }
  launch : ∀ {g : Engine ω}, g.flying = false → P g → P g.launch
  load : ∀ {g : Engine ω}, P g → P g.startLoad

theorem Abiding.call {P : Engine ω → Prop} (h : Abiding admitted P) (hkeeps : Keeps P acting)
    {c : Call ω} (hadm : admitted g c) (hg : P g) : P (g.call acting c) := by
  cases hwaits : c.waits with
  | false => exact h.callback hkeeps hadm hwaits hg
  | true =>
    cases c with
    | flushNow =>
      change P g.flushNow.1
      have hquiet : P { g with quiet := g.quiet.cancel } := h.quiet _ hg
      rcases flushNow_cases g with
        ⟨-, heq⟩ | ⟨-, hflying, heq⟩ | ⟨-, -, -, heq⟩ | ⟨-, hflying, -, heq⟩
      · rwa [heq]
      · rw [heq]
        exact h.request (g := { g with quiet := g.quiet.cancel }) hflying hquiet
      · rwa [heq]
      · rw [heq]
        exact h.launch (g := { g with quiet := g.quiet.cancel }) hflying hquiet
    | refresh =>
      change P g.refresh.1
      unfold refresh
      split
      · exact hg
      · exact h.load hg
    | change | discard | close | subscribe | unsubscribe => cases hwaits

/-! ## What listeners cannot touch -/

/-- The engine `g` differs from `g₀` at most in what listeners can touch. -/
structure Beside (g₀ g : Engine ω) : Prop where
  flight : g.flight = g₀.flight
  asks : g.asks = g₀.asks
  errands : g.errands = g₀.errands
  catalog : g.catalog = g₀.catalog
  loads : g.loads = g₀.loads
  loading : g.loading = g₀.loading
  now : g.now = g₀.now
  closed : g₀.closed = true → g.closed = true

theorem Beside.refl (g : Engine ω) : Beside g g :=
  ⟨rfl, rfl, rfl, rfl, rfl, rfl, rfl, id⟩

theorem Beside.trans (h : Beside g₀ g) (h' : Beside g g') : Beside g₀ g' where
  flight := h'.flight.trans h.flight
  asks := h'.asks.trans h.asks
  errands := h'.errands.trans h.errands
  catalog := h'.catalog.trans h.catalog
  loads := h'.loads.trans h.loads
  loading := h'.loading.trans h.loading
  now := h'.now.trans h.now
  closed := h'.closed ∘ h.closed

theorem filterMap_orders {α : Type} {f : Effect ω → Option α} (hf : ∀ w, f (.order w) = none)
    (outbox : List (Effect ω)) (ws : List ω) :
    (outbox ++ ws.map Effect.order).filterMap f = outbox.filterMap f := by
  rw [List.filterMap_append, List.filterMap_map]
  have hnone : ws.filterMap (f ∘ Effect.order) = [] :=
    List.filterMap_eq_nil_iff.2 fun w _ => hf w
  rw [hnone, List.append_nil]

theorem asks_orders (outbox : List (Effect ω)) (ws : List ω) :
    (outbox ++ ws.map Effect.order).filterMap Effect.storeCall? =
      outbox.filterMap Effect.storeCall? :=
  filterMap_orders (fun _ => rfl) outbox ws

theorem beside_unspoken (g₀ : Engine ω) : Unspoken (Beside g₀) where
  tell := fun _ _ _ h =>
    ⟨h.flight, h.asks, h.errands, h.catalog, h.loads, h.loading, h.now, h.closed⟩
  -- an order is in the outbox as well, but asks nothing of the store
  order := fun g ws h =>
    ⟨h.flight, (asks_orders g.outbox ws).trans h.asks,
      (filterMap_orders (fun _ => rfl) g.outbox ws).trans h.errands, h.catalog, h.loads, h.loading,
      h.now, h.closed⟩

theorem beside_lasting (g₀ : Engine ω) : Lasting (fun _ _ => True) (Beside g₀) where
  unspoken := beside_unspoken g₀
  edit := fun _ _ _ _ h => h.trans ⟨rfl, rfl, rfl, rfl, rfl, rfl, rfl, id⟩
  quiet := fun _ h => h.trans ⟨rfl, rfl, rfl, rfl, rfl, rfl, rfl, id⟩
  drop := fun _ _ h => h.trans ⟨rfl, rfl, rfl, rfl, rfl, rfl, rfl, id⟩
  rest := fun _ _ _ h => h.trans ⟨rfl, rfl, rfl, rfl, rfl, rfl, rfl, id⟩
  close := fun h => h.trans ⟨rfl, rfl, rfl, rfl, rfl, rfl, rfl, fun _ => rfl⟩
  subscribe := fun _ _ h => h.trans ⟨rfl, rfl, rfl, rfl, rfl, rfl, rfl, id⟩
  unsubscribe := fun _ h => h.trans ⟨rfl, rfl, rfl, rfl, rfl, rfl, rfl, id⟩

theorem Beside.call (hkeeps : Keeps (Beside g₀) acting) (h : Beside g₀ g) {c : Call ω}
    (hwaits : c.waits = false) : Beside g₀ (g.call acting c) :=
  (beside_lasting g₀).callback hkeeps trivial hwaits h

end Engine

theorem Listening.beside (h : Listening admitted acting) (g₀ : Engine ω) :
    Keeps (Engine.Beside g₀) acting :=
  (Engine.beside_lasting g₀).keeps h.any

namespace Engine

/-! ## Where a stretch leaves the flight -/

/-- The flight is over, or it has sent a batch. -/
def Rounded (g : Engine ω) : Prop := g.flight = .none ∨ ∃ batch, g.flight = .saving batch

theorem rounded_land (g : Engine ω) (failure? : Option Failure) : (g.land failure?).Rounded :=
  .inl rfl

theorem sendBatch_rounded (acting : Acting ω) (g : Engine ω) : (g.sendBatch acting).Rounded := by
  rcases sendBatch_cases acting g with
    ⟨-, -, g', -, heq⟩ | ⟨-, -, g', -, heq⟩ | ⟨-, failure?, heq⟩
  · exact heq ▸ rounded_land _ _
  · exact heq ▸ .inr ⟨_, rfl⟩
  · exact heq ▸ rounded_land _ _

theorem endRound_rounded (acting : Acting ω) (g : Engine ω) : (g.endRound acting).Rounded := by
  rcases endRound_cases acting g with ⟨-, heq⟩ | ⟨-, heq⟩
  · exact heq ▸ sendBatch_rounded acting _
  · exact heq ▸ rounded_land _ _

theorem showSaved_rounded (acting : Acting ω) (g : Engine ω) : (g.showSaved acting).Rounded := by
  rcases showSaved_cases acting g with ⟨-, g', -, heq⟩ | ⟨-, g', -, heq⟩ <;>
    exact heq ▸ endRound_rounded acting _

theorem confirm_rounded (acting : Acting ω) (g : Engine ω) (batch : Batch) (rows : List Setting)
    (installed : Bool) : (g.confirm acting batch rows installed).Rounded := by
  rcases confirm_cases acting g batch rows installed with
    ⟨failure, -, heq⟩ | ⟨-, heq⟩ | ⟨-, heq⟩
  · exact heq ▸ rounded_land _ _
  · exact heq ▸ showSaved_rounded acting _
  · exact heq ▸ endRound_rounded acting _

/-- When the load after a save is answered, the flight has gone its round. -/
theorem reloaded_rounded (acting : Acting ω) {batch : Batch} {rows : List Setting} {load : Nat}
    (h : g.flight = .reloading batch rows load) (answer : Except Failure Categories) :
    (g.reloaded acting answer).Rounded := by
  rcases reloaded_cases acting h answer with ⟨-, heq⟩ | ⟨f, -, -, heq⟩ | ⟨-, -, heq⟩
  · exact heq ▸ endRound_rounded acting _
  · exact heq ▸ rounded_land _ _
  · exact heq ▸ confirm_rounded acting _ _ _ _

/-- Listeners that leave the engine alone are told, and nothing else happens. -/
theorem Told.of_aloof {status : Status} (h : Told acting status g g') (haloof : Aloof acting) :
    ∃ notices outbox,
      g' = { g with board := { g.board with notices }, outbox } ∧ g'.asks = g.asks := by
  -- being such an engine is itself a property that says nothing of notices and of the outbox
  have hunspoken : Unspoken fun g' : Engine ω => ∃ notices outbox,
      g' = { g with board := { g.board with notices }, outbox } ∧ g'.asks = g.asks := by
    constructor
    · rintro _ listener status ⟨notices, outbox, rfl, hasks⟩
      exact ⟨_, outbox, rfl, hasks⟩
    · rintro _ ws ⟨notices, outbox, rfl, hasks⟩
      exact ⟨notices, _, rfl, (asks_orders outbox ws).trans hasks⟩
  exact h.keeps (haloof.keeps hunspoken) ⟨_, _, rfl, rfl⟩

theorem Told.flight {status : Status} (h : Told acting status g g')
    (hlisten : Listening admitted acting) : g'.flight = g.flight :=
  (h.keeps (hlisten.beside g) (.refl g)).flight

/-- How an event moves the flight on. -/
inductive Flown (g : Engine ω) (ev : Event ω) (g' : Engine ω) : Prop where
  | stays : g'.flight = g.flight → Flown g ev g'
  | asked : g.closed = false → g'.flight = .waiting → Flown g ev g'
  | rounded : g'.Rounded → Flown g ev g'
  | reloads {batch : Batch} {rows : List Setting} :
      g.flight = .saving batch → ev = .turn (.updated (.ok rows)) →
      g'.flight = .reloading batch rows (g.loads + 1) → Flown g ev g'

section

variable (hlisten : Listening admitted acting)
include hlisten

theorem flown_call (g : Engine ω) (c : Call ω) : Flown g (.call c) (g.call acting c) := by
  cases hwaits : c.waits with
  | false => exact .stays (Beside.call (hlisten.beside g) (.refl g) hwaits).flight
  | true =>
    -- what waits for the store is called from outside only
    cases c with
    | flushNow =>
      change Flown g _ g.flushNow.1
      rcases flushNow_cases g with
        ⟨-, heq⟩ | ⟨-, -, heq⟩ | ⟨-, -, -, heq⟩ | ⟨hopen, -, -, heq⟩
      · exact .stays (by rw [heq])
      · exact .stays (by rw [heq])
      · exact .stays (by rw [heq])
      · exact .asked hopen (by rw [heq]; rfl)
    | refresh =>
      change Flown g _ g.refresh.1
      unfold refresh
      split <;> exact .stays rfl
    | change | discard | close | subscribe | unsubscribe => cases hwaits

theorem flown_turn (g : Engine ω) (t : Turn) : Flown g (.turn t) (g.turn acting t) := by
  cases t with
  | quietOver =>
    change Flown g _ (quietOver _)
    rcases quietOver_cases { g with quiet := g.quiet.cancel } with
      ⟨-, heq⟩ | ⟨-, -, heq⟩ | ⟨hopen, -, heq⟩
    · exact .stays (by rw [heq])
    · exact .stays (by rw [heq])
    · exact .asked hopen (by rw [heq]; rfl)
  | shownOver =>
    change Flown g _ (shownOver acting _)
    rcases shownOver_cases acting { g with shown := g.shown.cancel } with heq | ⟨-, -, htold⟩
    · exact .stays (by rw [heq])
    · exact .stays (htold.flight hlisten)
  | takeOff => exact .rounded (sendBatch_rounded acting _)
  | updated answer =>
    change Flown g _ (g.updated acting answer)
    cases hflight : g.flight with
    | saving batch =>
      rcases updated_cases acting hflight answer with
        ⟨-, heq⟩ | ⟨-, rows, rfl, heq⟩ | ⟨-, f, -, ⟨-, failure?, heq⟩ | ⟨g', -, heq⟩⟩
      · exact .rounded (heq ▸ endRound_rounded acting g)
      · -- a stored batch stays with the flight while the catalog is loaded
        exact .reloads hflight rfl (by rw [heq]; rfl)
      · exact .rounded (heq ▸ rounded_land g failure?)
      · exact .rounded (heq ▸ endRound_rounded acting g')
    | none | waiting | reloading => exact .stays (by simp [updated, hflight])
  | reloaded answer =>
    change Flown g _ (g.reloaded acting answer)
    cases hflight : g.flight with
    | reloading batch rows load => exact .rounded (reloaded_rounded acting hflight answer)
    | none | waiting | saving => exact .stays (by simp [reloaded, hflight])
  | loaded load answer =>
    rw [turn_loaded]
    exact .stays rfl

theorem flown_after (g : Engine ω) (ev : Event ω) : Flown g ev (g.after acting ev) := by
  cases ev with
  | call c => exact flown_call hlisten g c
  | turn t => exact flown_turn hlisten g t
  | wait seconds => exact .stays rfl

end

/-! ## What a turn leaves to the listeners -/

section Leaving

/-- A property of the edits, of the board and of whether the engine is closed, which is kept by
listeners and by every event of the indicator. -/
structure Steady (P : Engine ω → Prop) (acting : Acting ω) : Prop where
  keeps : Keeps P acting
  shows : ∀ {g : Engine ω} (e : StatusEvent), P g → P (g.shows e)
  aside : ∀ {g g' : Engine ω}, P g → g'.edits = g.edits → g'.board = g.board →
    g'.closed = g.closed → P g'

variable {P : Engine ω → Prop} (hsteady : Steady P acting)
include hsteady

theorem Steady.told {status : Status} {e : StatusEvent} (htold : Told acting status (g.shows e) g')
    (h : P g) : P g' :=
  htold.keeps hsteady.keeps (hsteady.shows e h)

theorem Steady.sendBatch (h : P g) : P (g.sendBatch acting) := by
  have hedited : P { g with edited := false } := hsteady.aside h rfl rfl rfl
  rcases sendBatch_cases acting g with
    ⟨-, -, g', htold, heq⟩ | ⟨-, -, g', htold, heq⟩ | ⟨-, failure?, heq⟩
  · rw [heq]
    exact hsteady.aside (hsteady.told htold hedited) rfl rfl rfl
  · rw [heq]
    exact hsteady.aside (hsteady.told htold hedited) rfl rfl rfl
  · rw [heq]
    exact hsteady.aside h rfl rfl rfl

theorem Steady.endRound (h : P g) : P (g.endRound acting) := by
  have hdone : P { g with requested := false } := hsteady.aside h rfl rfl rfl
  rcases endRound_cases acting g with ⟨-, heq⟩ | ⟨-, heq⟩
  · rw [heq]
    exact hsteady.sendBatch hdone
  · rw [heq]
    exact hsteady.aside hdone rfl rfl rfl

theorem Steady.updated (h : P g) (answer : Except Failure (List Setting)) :
    P (g.updated acting answer) := by
  cases hflight : g.flight with
  | saving batch =>
    rcases updated_cases acting hflight answer with
      ⟨-, heq⟩ | ⟨-, rows, -, heq⟩ | ⟨-, f, -, ⟨-, failure?, heq⟩ | ⟨g', htold, heq⟩⟩
    · rw [heq]
      exact hsteady.endRound h
    · rw [heq]
      exact hsteady.aside h rfl rfl rfl
    · rw [heq]
      exact hsteady.aside h rfl rfl rfl
    · rw [heq]
      exact hsteady.endRound (hsteady.told htold h)
  | none | waiting | reloading => simpa [Engine.updated, hflight] using h

theorem Steady.showSaved (h : P g) : P (g.showSaved acting) := by
  rcases showSaved_cases acting g with ⟨-, g', htold, heq⟩ | ⟨-, g', htold, heq⟩
  · rw [heq]
    exact hsteady.endRound (hsteady.aside (hsteady.told htold h) rfl rfl rfl)
  · rw [heq]
    exact hsteady.endRound (hsteady.told htold h)

theorem Steady.confirm {batch : Batch} (h : P { g with edits := (g.edits.discardFlushed batch).1 })
    (rows : List Setting) (installed : Bool) : P (g.confirm acting batch rows installed) := by
  have hdone : P (g.confirmed batch rows installed) := hsteady.aside h rfl rfl rfl
  rcases confirm_cases acting g batch rows installed with
    ⟨failure, -, heq⟩ | ⟨-, heq⟩ | ⟨-, heq⟩
  · rw [heq]
    exact hsteady.aside hdone rfl rfl rfl
  · rw [heq]
    exact hsteady.showSaved hdone
  · rw [heq]
    exact hsteady.endRound hdone

theorem Steady.reloaded (h : P g)
    (hbatch : ∀ batch rows load, g.flight = .reloading batch rows load →
      P { g with edits := (g.edits.discardFlushed batch).1 })
    (answer : Except Failure Categories) : P (g.reloaded acting answer) := by
  cases hflight : g.flight with
  | reloading batch rows load =>
    have hload : P (g.withLoad load answer) := hsteady.aside h rfl rfl rfl
    rcases reloaded_cases acting hflight answer with
      ⟨-, heq⟩ | ⟨f, -, -, heq⟩ | ⟨-, -, heq⟩
    · rw [heq]
      exact hsteady.endRound hload
    · rw [heq]
      exact hsteady.aside hload rfl rfl rfl
    · -- here, and only here, a turn itself touches the edits
      rw [heq]
      refine hsteady.confirm ?_ rows _
      exact hsteady.aside (hbatch batch rows load hflight) rfl rfl rfl
  | none | waiting | saving => simpa [Engine.reloaded, hflight] using h

theorem Steady.shownOver (h : P g) : P (g.shownOver acting) := by
  rcases shownOver_cases acting g with heq | ⟨-, -, htold⟩
  · rwa [heq]
  · exact hsteady.told htold h

/-- The engine by itself touches the edits only to confirm a batch, it never closes, and it touches
the board only by events of the indicator. -/
theorem Steady.turn (h : P g) {t : Turn}
    (hbatch : ∀ answer, t = .reloaded answer → ∀ batch rows load,
      g.flight = .reloading batch rows load →
      P { g with edits := (g.edits.discardFlushed batch).1 }) :
    P (g.turn acting t) := by
  cases t with
  | quietOver =>
    change P (quietOver _)
    rcases quietOver_cases { g with quiet := g.quiet.cancel } with
      ⟨-, heq⟩ | ⟨-, -, heq⟩ | ⟨-, -, heq⟩ <;>
      rw [heq] <;> exact hsteady.aside h rfl rfl rfl
  | shownOver => exact hsteady.shownOver (hsteady.aside h rfl rfl rfl)
  | takeOff => exact hsteady.sendBatch (hsteady.aside h rfl rfl rfl)
  | updated answer => exact hsteady.updated h answer
  | reloaded answer => exact hsteady.reloaded h (hbatch answer rfl) answer
  | loaded load answer =>
    rw [turn_loaded]
    exact hsteady.aside h rfl rfl rfl

end Leaving

theorem steady_closed (hlisten : Listening admitted acting) :
    Steady (fun g : Engine ω => g.closed = true) acting where
  keeps := ⟨fun _ _ _ hg => hg, fun w g hg => ((hlisten.beside g).act w g (.refl g)).closed hg⟩
  shows := fun _ hg => hg
  aside := fun hg _ _ hclosed => hclosed.trans hg

/-- A closed engine stays closed. -/
theorem closed_after (hlisten : Listening admitted acting) (h : g.closed = true)
    (ev : Event ω) : (g.after acting ev).closed = true := by
  cases ev with
  | wait seconds => exact h
  | turn t => exact (steady_closed hlisten).turn h fun _ _ _ _ _ _ => h
  | call c =>
    -- a listener can close the engine, but nobody can open it
    change (g.call acting c).closed = true
    cases hwaits : c.waits with
    | false => exact (Beside.call (hlisten.beside g) (.refl g) hwaits).closed h
    | true =>
      cases c with
      | flushNow => simp [call, flushNow, h]
      | refresh => simp [call, refresh, h]
      | change | discard | close | subscribe | unsubscribe => cases hwaits

/-- An engine that is open now was open before. -/
theorem open_of_after (hlisten : Listening admitted acting) {ev : Event ω}
    (hopen : (g.after acting ev).closed = false) : g.closed = false := by
  apply Bool.of_not_eq_true
  intro hclosed
  exact Bool.false_ne_true (hopen.symm.trans (closed_after hlisten hclosed ev))

end Engine

/-- A course that ends with an open engine began with one. -/
theorem Course.Leads.was_open {events : Course ω → Event ω → Prop} {c c' : Course ω}
    (h : c.Leads events (Listening admitted) c') (hopen : c'.engine.closed = false) :
    c.engine.closed = false := by
  induction h with
  | refl => exact hopen
  | step _ hlisten _ _ ih => exact ih (Engine.open_of_after hlisten hopen)

end DeferredSave
