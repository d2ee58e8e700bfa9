import DeferredSave.Proofs.Course.Ledger

/-!
# What the catalog is made of

Whatever listeners call while they are told, the catalog changes in two ways only
(`Engine.shelves_after`). The answer of the newest load takes its place; or the rows that a save
returned are put into it, when the load that follows the save brought no catalog. The numbers of
loads only grow, and the load that follows a save is the newest when it starts.
-/

namespace DeferredSave.Engine

variable {ω : Type} {acting : Acting ω} {g g' g₀ : Engine ω} {admitted : Engine ω → Call ω → Prop}

/-! ## What a stretch of the flight leaves as it is -/

/-- The number of loads that the outbox asks for. -/
def fetches (g : Engine ω) : Nat := g.asks.count .fetch

/-- The engine `g` has the loads of `g₀`. -/
structure Tallied (g₀ g : Engine ω) : Prop where
  loads : g.loads = g₀.loads
  loading : g.loading = g₀.loading
  fetches : g.fetches = g₀.fetches

/-- The engine `g` has the catalog of `g₀`, and its loads. -/
structure Shelved (g₀ g : Engine ω) : Prop extends Tallied g₀ g where
  catalog : g.catalog = g₀.catalog

theorem Shelved.refl (g : Engine ω) : Shelved g g := ⟨⟨rfl, rfl, rfl⟩, rfl⟩

theorem Shelved.trans (h : Shelved g₀ g) (h' : Shelved g g') : Shelved g₀ g' where
  loads := h'.loads.trans h.loads
  loading := h'.loading.trans h.loading
  fetches := h'.fetches.trans h.fetches
  catalog := h'.catalog.trans h.catalog

/-- Only the catalog, the loads and the outbox matter. -/
theorem Shelved.of_eq (h : Shelved g₀ g) (hcatalog : g'.catalog = g.catalog)
    (hloads : g'.loads = g.loads) (hloading : g'.loading = g.loading)
    (houtbox : g'.outbox = g.outbox) : Shelved g₀ g' :=
  h.trans ⟨⟨hloads, hloading, by unfold fetches asks; rw [houtbox]⟩, hcatalog⟩

theorem Beside.shelved (h : Beside g₀ g) : Shelved g₀ g :=
  ⟨⟨h.loads, h.loading, by unfold fetches; rw [h.asks]⟩, h.catalog⟩

theorem fetches_emit (g : Engine ω) (e : Effect ω) :
    (g.emit e).fetches = g.fetches + e.storeCall?.toList.count .fetch := by
  unfold fetches
  rw [asks_emit, List.count_append]

theorem Shelved.land (h : Shelved g₀ g) (failure? : Option Failure) :
    Shelved g₀ (g.land failure?) :=
  h.trans ⟨⟨rfl, rfl, fetches_emit _ _⟩, rfl⟩

theorem Shelved.launch (h : Shelved g₀ g) : Shelved g₀ g.launch :=
  h.trans ⟨⟨rfl, rfl, fetches_emit _ _⟩, rfl⟩

theorem Shelved.send (h : Shelved g₀ g) (batch : Batch) :
    Shelved g₀ ({ g with flight := .saving batch }.emit (.update batch)) :=
  h.trans ⟨⟨rfl, rfl, fetches_emit _ _⟩, rfl⟩

section

variable (hlisten : Listening admitted acting)
include hlisten

theorem Shelved.told {status : Status} {e : StatusEvent} (h : Shelved g₀ g)
    (htold : Told acting status (g.shows e) g') : Shelved g₀ g' := by
  have hshows : Shelved g₀ (g.shows e) := h.of_eq rfl rfl rfl rfl
  exact hshows.trans (htold.keeps (hlisten.beside _) (.refl _)).shelved

theorem Shelved.sendBatch (h : Shelved g₀ g) : Shelved g₀ (g.sendBatch acting) := by
  have hedited : Shelved g₀ { g with edited := false } := h.of_eq rfl rfl rfl rfl
  rcases sendBatch_cases acting g with
    ⟨-, -, g', htold, heq⟩ | ⟨-, -, g', htold, heq⟩ | ⟨-, failure?, heq⟩
  · have hdone : Shelved g₀ { g' with requested := false } :=
      (hedited.told hlisten htold).of_eq rfl rfl rfl rfl
    exact heq ▸ hdone.land none
  · exact heq ▸ (hedited.told hlisten htold).send _
  · exact heq ▸ hedited.land failure?

theorem Shelved.endRound (h : Shelved g₀ g) : Shelved g₀ (g.endRound acting) := by
  have hdone : Shelved g₀ { g with requested := false } := h.of_eq rfl rfl rfl rfl
  rcases endRound_cases acting g with ⟨-, heq⟩ | ⟨-, heq⟩
  · exact heq ▸ hdone.sendBatch hlisten
  · exact heq ▸ hdone.land none

theorem Shelved.showSaved (h : Shelved g₀ g) : Shelved g₀ (g.showSaved acting) := by
  rcases showSaved_cases acting g with ⟨-, g', htold, heq⟩ | ⟨-, g', htold, heq⟩
  · have hshown : Shelved g₀ { g' with shown := g'.shown.arm g'.now } :=
      (h.told hlisten htold).of_eq rfl rfl rfl rfl
    exact heq ▸ hshown.endRound hlisten
  · exact heq ▸ (h.told hlisten htold).endRound hlisten

theorem confirm_shelved (g : Engine ω) (batch : Batch) (rows : List Setting) (installed : Bool) :
    Shelved (g.confirmed batch rows installed) (g.confirm acting batch rows installed) := by
  have hdone := Shelved.refl (g.confirmed batch rows installed)
  rcases confirm_cases acting g batch rows installed with
    ⟨failure, -, heq⟩ | ⟨-, heq⟩ | ⟨-, heq⟩
  · exact heq ▸ hdone.land _
  · exact heq ▸ hdone.showSaved hlisten
  · exact heq ▸ hdone.endRound hlisten

end

/-! ## Answers of loads -/

theorem loadedCatalog_of_not_installs {load : Nat} {answer : Except Failure Categories}
    (h : g.installs load answer = false) : g.loadedCatalog load answer = g.catalog := by
  cases answer with
  | ok categories =>
    have hout : g.outdated load = true := by simpa [installs] using h
    simp [loadedCatalog, hout]
  | error f => rfl

/-- Only the newest load installs its catalog. -/
theorem exists_of_installs {load : Nat} {answer : Except Failure Categories}
    (h : g.installs load answer = true) :
    ∃ categories, answer = .ok categories ∧ load = g.loads ∧
      g.loadedCatalog load answer = ⟨categories⟩ ∧ g.closed = false := by
  cases answer with
  | ok categories =>
    have hout : g.outdated load = false := by simpa [installs] using h
    have hnewest : load = g.loads ∧ g.closed = false := by simpa [outdated] using hout
    exact ⟨categories, rfl, hnewest.1, by simp [loadedCatalog, hout], hnewest.2⟩
  | error f => cases h

/-- What an event makes of the catalog. -/
inductive Restocked (g : Engine ω) (ev : Event ω) (c : Catalog) : Prop where
  | stays : c = g.catalog → Restocked g ev c
  | loaded {categories : Categories} :
      ev = .turn (.loaded g.loads (.ok categories)) → c = ⟨categories⟩ → g.closed = false →
      Restocked g ev c
  | reloaded {batch : Batch} {rows : List Setting} {categories : Categories} :
      g.flight = .reloading batch rows g.loads → ev = .turn (.reloaded (.ok categories)) →
      c = ⟨categories⟩ → g.closed = false → Restocked g ev c
  | patched {batch : Batch} {rows : List Setting} {load : Nat}
      {answer : Except Failure Categories} :
      g.flight = .reloading batch rows load → ev = .turn (.reloaded answer) → g.closed = false →
      (∀ f, answer = .error f → f.isFetch = true) → g.installs load answer = false →
      c = g.catalog.withUpdates rows → Restocked g ev c

/-- What an event does to the catalog and to the number of loads. -/
structure Shelves (g : Engine ω) (ev : Event ω) (g' : Engine ω) : Prop where
  catalog : Restocked g ev g'.catalog
  loads : g.loads ≤ g'.loads

theorem Shelves.stays {ev : Event ω} (hcatalog : g'.catalog = g.catalog)
    (hloads : g'.loads = g.loads) : Shelves g ev g' :=
  ⟨.stays hcatalog, Nat.le_of_eq hloads.symm⟩

theorem Shelved.shelves (h : Shelved g g') (ev : Event ω) : Shelves g ev g' :=
  .stays h.catalog h.loads

section

variable (hlisten : Listening admitted acting)
include hlisten

theorem call_shelves (g : Engine ω) (c : Call ω) : Shelves g (.call c) (g.call acting c) := by
  cases hwaits : c.waits with
  | false => exact (Beside.call (hlisten.beside g) (.refl g) hwaits).shelved.shelves _
  | true =>
    cases c with
    | flushNow =>
      change Shelves g _ g.flushNow.1
      rcases flushNow_cases g with ⟨-, heq⟩ | ⟨-, -, heq⟩ | ⟨-, -, -, heq⟩ | ⟨-, -, -, heq⟩ <;>
        rw [heq] <;> exact .stays rfl rfl
    | refresh =>
      change Shelves g _ g.refresh.1
      unfold refresh
      split
      · exact .stays rfl rfl
      · exact ⟨.stays rfl, Nat.le_succ _⟩
    | change | discard | close | subscribe | unsubscribe => cases hwaits

theorem updated_shelves (g : Engine ω) (answer : Except Failure (List Setting)) :
    Shelves g (.turn (.updated answer)) (g.updated acting answer) := by
  cases hflight : g.flight with
  | saving batch =>
    rcases updated_cases acting hflight answer with
      ⟨-, heq⟩ | ⟨-, rows, -, heq⟩ | ⟨-, f, -, ⟨-, failure?, heq⟩ | ⟨g', htold, heq⟩⟩
    · exact heq ▸ ((Shelved.refl g).endRound hlisten).shelves _
    · exact heq ▸ ⟨.stays rfl, Nat.le_succ _⟩
    · exact heq ▸ .stays rfl rfl
    · exact heq ▸ (((Shelved.refl g).told hlisten htold).endRound hlisten).shelves _
  | none | waiting | reloading =>
    have heq : g.updated acting answer = g := by simp [updated, hflight]
    rw [heq]
    exact .stays rfl rfl

/-- When a batch is confirmed, the rows of its save are in the catalog unless there is a new one. -/
theorem reloaded_catalog {batch : Batch} {rows : List Setting} {load : Nat}
    (h : g.flight = .reloading batch rows load) (hopen : g.closed = false)
    {answer : Except Failure Categories} (hanswer : ∀ f, answer = .error f → f.isFetch = true) :
    (g.reloaded acting answer).catalog =
      if g.installs load answer then g.loadedCatalog load answer
      else g.catalog.withUpdates rows := by
  have hkept : (g.withLoad load answer).catalog = g.loadedCatalog load answer := rfl
  rw [reloaded_of_open h hopen hanswer, (confirm_shelved hlisten _ _ _ _).catalog, confirmed, hkept]
  cases hinstalls : g.installs load answer with
  | true => rfl
  | false => rw [loadedCatalog_of_not_installs hinstalls]

/-- The answer of a load that follows a save counts like any other. -/
theorem reloaded_tallied {batch : Batch} {rows : List Setting} {load : Nat}
    (h : g.flight = .reloading batch rows load) (answer : Except Failure Categories) :
    Tallied (g.withLoad load answer) (g.reloaded acting answer) := by
  have hload := Shelved.refl (g.withLoad load answer)
  rcases reloaded_cases acting h answer with ⟨-, heq⟩ | ⟨f, -, -, heq⟩ | ⟨-, -, heq⟩
  · exact heq ▸ (hload.endRound hlisten).toTallied
  · exact heq ▸ (hload.land (some f)).toTallied
  · have hconfirm := confirm_shelved hlisten (g.withLoad load answer) batch rows
      (g.installs load answer)
    exact heq ▸ ⟨hconfirm.loads, hconfirm.loading, hconfirm.fetches⟩

theorem reloaded_shelves (g : Engine ω) (answer : Except Failure Categories) :
    Shelves g (.turn (.reloaded answer)) (g.reloaded acting answer) := by
  cases hflight : g.flight with
  | reloading batch rows load =>
    -- only the branch that confirms the batch does anything to the catalog
    refine ⟨?_, Nat.le_of_eq (reloaded_tallied hlisten hflight answer).loads.symm⟩
    rcases reloaded_cases acting hflight answer with
      ⟨hclosed, heq⟩ | ⟨f, rfl, -, heq⟩ | ⟨hopen, hanswer, -⟩
    · have hround := (Shelved.refl (g.withLoad load answer)).endRound hlisten
      rw [heq]
      exact .stays (hround.catalog.trans (loadedCatalog_of_closed hclosed load answer))
    · rw [heq]
      exact .stays rfl
    · rw [reloaded_catalog hlisten hflight hopen hanswer]
      cases hinstalls : g.installs load answer with
      | true =>
        obtain ⟨categories, rfl, rfl, hloaded, hopen⟩ := exists_of_installs hinstalls
        exact .reloaded hflight rfl hloaded hopen
      | false => exact .patched hflight rfl hopen hanswer hinstalls rfl
  | none | waiting | saving =>
    have heq : g.reloaded acting answer = g := by simp [reloaded, hflight]
    rw [heq]
    exact .stays rfl rfl

theorem turn_shelves (g : Engine ω) (t : Turn) : Shelves g (.turn t) (g.turn acting t) := by
  cases t with
  | quietOver =>
    change Shelves g _ (quietOver _)
    rcases quietOver_cases { g with quiet := g.quiet.cancel } with
      ⟨-, heq⟩ | ⟨-, -, heq⟩ | ⟨-, -, heq⟩ <;>
      rw [heq] <;> exact .stays rfl rfl
  | shownOver =>
    change Shelves g _ (shownOver acting _)
    have hshown : Shelved g { g with shown := g.shown.cancel } :=
      (Shelved.refl g).of_eq rfl rfl rfl rfl
    rcases shownOver_cases acting { g with shown := g.shown.cancel } with heq | ⟨-, -, htold⟩
    · rw [heq]
      exact .stays rfl rfl
    · exact (hshown.told hlisten htold).shelves _
  | takeOff =>
    have hdone : Shelved g { g with requested := false } :=
      (Shelved.refl g).of_eq rfl rfl rfl rfl
    exact (hdone.sendBatch hlisten).shelves _
  | updated answer => exact updated_shelves hlisten g answer
  | reloaded answer => exact reloaded_shelves hlisten g answer
  | loaded load answer =>
    rw [turn_loaded]
    refine ⟨?_, Nat.le_refl _⟩
    cases hinstalls : g.installs load answer with
    | true =>
      obtain ⟨categories, rfl, rfl, hloaded, hopen⟩ := exists_of_installs hinstalls
      exact .loaded rfl hloaded hopen
    | false => exact .stays (loadedCatalog_of_not_installs hinstalls)

/-- An event leaves the catalog as it is, replaces it by the answer of the newest load, or puts the
rows of a save into it; and it numbers loads upwards. -/
theorem shelves_after (g : Engine ω) (ev : Event ω) : Shelves g ev (g.after acting ev) := by
  cases ev with
  | call c => exact call_shelves hlisten g c
  | turn t => exact turn_shelves hlisten g t
  | wait seconds => exact .stays rfl rfl

end

/-- The load that follows a save is the newest when it starts. -/
theorem loads_of_reloads {batch batch' : Batch} {rows rows' : List Setting} {load : Nat}
    (hflight : g.flight = .saving batch)
    (hreloads : (g.updated acting (.ok rows)).flight = .reloading batch' rows' load) :
    (g.updated acting (.ok rows)).loads = g.loads + 1 := by
  rcases updated_cases acting hflight (.ok rows) with ⟨-, heq⟩ | ⟨-, _, -, heq⟩ | ⟨-, f, hf, -⟩
  · -- a closed engine ends its flight instead
    rw [heq] at hreloads
    obtain hr | ⟨_, hr⟩ := endRound_rounded acting g <;> rw [hr] at hreloads <;> cases hreloads
  · rw [heq]
    rfl
  · cases hf

end DeferredSave.Engine
