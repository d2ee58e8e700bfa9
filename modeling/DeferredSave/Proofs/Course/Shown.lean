import DeferredSave.Proofs.Course.Agreement
import DeferredSave.Proofs.Course.Round
import Mathlib.Algebra.Order.Ring.Unbundled.Rat

/-!
# How long a save is shown

When a save is shown there is nothing left to be saved, no flight is under way, and the time for
which it is shown starts anew (`Engine.JustSaved`). From then on it is shown for just that time, as
long as nobody makes an edit or ends the engine: unless the quiet period of an older edit is still
running and ends before. What that edit asked for was saved by a flight that went round, but its
quiet period was left running; and when it is over, an empty flight takes off and the indicator is
idle (`Course.saved_lasts_iff`).
-/

namespace DeferredSave

variable {ω : Type} {acting : Engine.Acting ω} {g g' : Engine ω} {till : Rat}

namespace Engine

/-! ## Where a save comes to be shown -/

/-- A save is shown from now on. -/
structure JustSaved (g : Engine ω) : Prop where
  opened : g.closed = false
  status : g.status = .saved
  edits : g.edits.isEmpty = true
  flight : g.flight = .none
  shown : ∃ a, g.shown.pending = some a ∧ a.due = g.now + g.shown.delay

section Entering

variable (haloof : Aloof acting)
include haloof

/-- A flight that takes a batch does not show that all is saved. -/
theorem sendBatch_status (hsaved : (g.sendBatch acting).status = .saved) : g.status = .saved := by
  rcases sendBatch_cases acting g with
    ⟨-, -, g', htold, heq⟩ | ⟨-, -, g', htold, heq⟩ | ⟨-, failure?, heq⟩
  · obtain ⟨notices, outbox, rfl, -⟩ := htold.of_aloof haloof
    rw [heq] at hsaved
    cases hsaved
  · obtain ⟨notices, outbox, rfl, -⟩ := htold.of_aloof haloof
    rw [heq] at hsaved
    cases hsaved
  · rwa [heq] at hsaved

theorem endRound_status (hsaved : (g.endRound acting).status = .saved) : g.status = .saved := by
  rcases endRound_cases acting g with ⟨-, heq⟩ | ⟨-, heq⟩
  · rw [heq] at hsaved
    exact sendBatch_status (g := { g with requested := false }) haloof hsaved
  · rwa [heq] at hsaved

theorem updated_status {batch : Batch} (hflight : g.flight = .saving batch)
    {answer : Except Failure (List Setting)} (hsaved : (g.updated acting answer).status = .saved) :
    g.status = .saved := by
  rcases updated_cases acting hflight answer with
    ⟨-, heq⟩ | ⟨-, rows, -, heq⟩ | ⟨-, f, -, ⟨-, failure?, heq⟩ | ⟨g', htold, heq⟩⟩
  · rw [heq] at hsaved
    exact endRound_status haloof hsaved
  · rwa [heq] at hsaved
  · rwa [heq] at hsaved
  · obtain ⟨notices, outbox, rfl, -⟩ := htold.of_aloof haloof
    rw [heq] at hsaved
    cases endRound_status haloof hsaved

theorem showSaved_justSaved (hopen : g.closed = false) (hempty : g.edits.isEmpty = true)
    (hsaved : (g.showSaved acting).status = .saved) : (g.showSaved acting).JustSaved := by
  rcases showSaved_cases acting g with ⟨-, g', htold, heq⟩ | ⟨-, g', htold, heq⟩
  · obtain ⟨notices, outbox, rfl, -⟩ := htold.of_aloof haloof
    -- without edits the flight lands
    rw [heq, endRound_of_isEmpty]
    · exact ⟨hopen, rfl, hempty, rfl, _, rfl, rfl⟩
    · exact hempty
  · obtain ⟨notices, outbox, rfl, -⟩ := htold.of_aloof haloof
    rw [heq] at hsaved
    cases endRound_status haloof hsaved

theorem reloaded_justSaved (hbefore : g.status ≠ .saved) {batch : Batch} {rows : List Setting}
    {load : Nat} (hflight : g.flight = .reloading batch rows load)
    {answer : Except Failure Categories} (hsaved : (g.reloaded acting answer).status = .saved) :
    (g.reloaded acting answer).JustSaved := by
  rcases reloaded_cases acting hflight answer with ⟨-, heq⟩ | ⟨f, -, -, heq⟩ | ⟨hopen, -, heq⟩
  · rw [heq] at hsaved
    exact (hbefore (endRound_status (g := g.withLoad load answer) haloof hsaved)).elim
  · rw [heq] at hsaved
    exact (hbefore hsaved).elim
  · rw [heq] at hsaved ⊢
    rcases confirm_cases acting (g.withLoad load answer) batch rows (g.installs load answer) with
      ⟨failure, -, heq⟩ | ⟨hempty, heq⟩ | ⟨-, heq⟩
    · rw [heq] at hsaved
      exact (hbefore hsaved).elim
    · rw [heq] at hsaved ⊢
      exact showSaved_justSaved haloof hopen hempty hsaved
    · rw [heq] at hsaved
      have hs :=
        endRound_status (g := (g.withLoad load answer).confirmed batch rows _) haloof hsaved
      exact (hbefore hs).elim

theorem call_status {c : Call ω} (hsaved : (g.call acting c).status = .saved) :
    g.status = .saved := by
  cases c with
  | change key value =>
    change (g.change acting key value).1.status = .saved at hsaved
    cases hclosed : g.closed with
    | true => rwa [change_of_closed hclosed] at hsaved
    | false =>
      obtain ⟨g', htold, heq⟩ := change_of_open acting hclosed key value
      obtain ⟨notices, outbox, rfl, -⟩ := htold.of_aloof haloof
      rw [heq] at hsaved
      cases hsaved
  | discard keys? =>
    change (g.discard acting keys?).1.status = .saved at hsaved
    rcases discard_cases acting g keys? with heq | ⟨-, heq | ⟨-, -, g', htold, heq⟩⟩
    · rwa [heq] at hsaved
    · rwa [heq] at hsaved
    · obtain ⟨notices, outbox, rfl, -⟩ := htold.of_aloof haloof
      rw [heq] at hsaved
      cases hsaved
  | flushNow =>
    change g.flushNow.1.status = .saved at hsaved
    rcases flushNow_cases g with
      ⟨-, heq⟩ | ⟨-, -, heq⟩ | ⟨-, -, -, heq⟩ | ⟨-, -, -, heq⟩ <;> rwa [heq] at hsaved
  | refresh =>
    change g.refresh.1.status = .saved at hsaved
    unfold refresh at hsaved
    split at hsaved <;> exact hsaved
  | close =>
    change g.close.status = .saved at hsaved
    unfold close at hsaved
    split at hsaved <;> exact hsaved
  | subscribe listener reply? => exact hsaved
  | unsubscribe handle => exact (status_unsubscribe g handle).symm.trans hsaved

/-- A save comes to be shown when the load after it is answered, and in no other way. -/
theorem justSaved_after {ev : Event ω} (hbefore : g.status ≠ .saved)
    (hsaved : (g.after acting ev).status = .saved) : (g.after acting ev).JustSaved := by
  cases ev with
  | call c => exact (hbefore (call_status haloof hsaved)).elim
  | wait seconds => exact (hbefore hsaved).elim
  | turn t =>
    cases t with
    | quietOver =>
      change (quietOver _).status = .saved at hsaved
      rcases quietOver_cases { g with quiet := g.quiet.cancel } with
        ⟨-, heq⟩ | ⟨-, -, heq⟩ | ⟨-, -, heq⟩ <;> rw [heq] at hsaved <;>
        exact (hbefore hsaved).elim
    | shownOver =>
      change (shownOver acting _).status = .saved at hsaved
      rcases shownOver_cases acting { g with shown := g.shown.cancel } with heq | ⟨-, hs, -⟩
      · rw [heq] at hsaved
        exact (hbefore hsaved).elim
      · exact (hbefore hs).elim
    | takeOff =>
      have hs := sendBatch_status (g := { g with requested := false }) haloof hsaved
      exact (hbefore hs).elim
    | updated answer =>
      change (g.updated acting answer).status = .saved at hsaved
      cases hflight : g.flight with
      | saving batch => exact (hbefore (updated_status haloof hflight hsaved)).elim
      | none | waiting | reloading => simp [updated, hflight, hbefore] at hsaved
    | reloaded answer =>
      change (g.reloaded acting answer).status = .saved at hsaved
      change (g.reloaded acting answer).JustSaved
      cases hflight : g.flight with
      | reloading batch rows load => exact reloaded_justSaved haloof hbefore hflight hsaved
      | none | waiting | saving => simp [reloaded, hflight, hbefore] at hsaved
    | loaded load answer =>
      change (g.turn acting (.loaded load answer)).status = .saved at hsaved
      rw [turn_loaded] at hsaved
      exact (hbefore hsaved).elim

end Entering

/-! ## While nobody makes an edit -/

/-- Nothing is left to be saved. At most a flight is asked for that will find no edits. -/
structure Cleared (g : Engine ω) : Prop where
  opened : g.closed = false
  edits : g.edits.isEmpty = true
  flight : g.flight = .none ∨ g.flight = .waiting

/-- A save is shown until the moment `till`: the timer for it expires then, and nothing ends it
before. -/
structure ShownTill (till : Rat) (g : Engine ω) : Prop extends Cleared g where
  status : g.status = .saved
  shown : ∃ a, g.shown.pending = some a ∧ max g.now a.due = till
  quiet : ∀ a, g.quiet.pending = some a → till ≤ max g.now a.due
  waiting : g.flight = .waiting → till ≤ g.now

/-- From the moment `till` on the indicator is idle. -/
structure IdleFrom (till : Rat) (g : Engine ω) : Prop extends Cleared g where
  status : g.status = .idle
  reached : till ≤ g.now

/-- What stays as it is when nobody makes an edit: the quiet period may be stopped. -/
structure Untouched (g g' : Engine ω) : Prop where
  closed : g'.closed = g.closed
  edits : g'.edits.isEmpty = true
  flight : g'.flight = g.flight
  now : g'.now = g.now
  status : g'.status = g.status
  shown : g'.shown = g.shown
  quiet : g'.quiet = g.quiet ∨ g'.quiet = g.quiet.cancel

theorem Untouched.cleared (h : Untouched g g') (hcleared : g.Cleared) : g'.Cleared :=
  ⟨h.closed.trans hcleared.opened, h.edits, h.flight ▸ hcleared.flight⟩

theorem Untouched.shownTill (h : Untouched g g') (hshown : g.ShownTill till) :
    g'.ShownTill till where
  toCleared := h.cleared hshown.toCleared
  status := h.status.trans hshown.status
  shown := by
    rw [h.shown, h.now]
    exact hshown.shown
  quiet := by
    intro a ha
    rw [h.now]
    obtain hquiet | hquiet := h.quiet
    · exact hshown.quiet a (hquiet ▸ ha)
    · rw [hquiet] at ha
      cases ha
  waiting := by
    rw [h.flight, h.now]
    exact hshown.waiting

theorem Untouched.idleFrom (h : Untouched g g') (hidle : g.IdleFrom till) : g'.IdleFrom till :=
  ⟨h.cleared hidle.toCleared, h.status.trans hidle.status, h.now.symm ▸ hidle.reached⟩

end Engine

/-- The event is no call that makes an edit or ends the engine. -/
def Event.Bides : Event ω → Prop
  | .call (.change ..) | .call .close => False
  | _ => True

namespace Engine

/-- Where no edits are shown and there are none, a call touches nothing. -/
theorem call_untouched (acting : Acting ω) (hempty : g.edits.isEmpty = true)
    (hshows : g.showsEdits = false) {c : Call ω} (hbides : (Event.call c).Bides) :
    Untouched g (g.call acting c) := by
  cases c with
  | change | close => exact hbides.elim
  | discard keys? =>
    change Untouched g (g.discard acting keys?).1
    have hdropped := EditBuffer.isEmpty_discard g.edits keys? hempty
    rcases discard_cases acting g keys? with heq | ⟨-, heq | ⟨-, hedits, -⟩⟩
    · exact heq ▸ ⟨rfl, hdropped, rfl, rfl, rfl, rfl, .inl rfl⟩
    · exact heq ▸ ⟨rfl, hdropped, rfl, rfl, rfl, rfl, .inr rfl⟩
    · cases hedits.symm.trans hshows
  | flushNow =>
    change Untouched g g.flushNow.1
    rcases flushNow_cases g with
      ⟨-, heq⟩ | ⟨-, -, heq⟩ | ⟨-, -, -, heq⟩ | ⟨-, -, hsome, -⟩
    · rw [heq]
      exact ⟨rfl, hempty, rfl, rfl, rfl, rfl, .inl rfl⟩
    · exact heq ▸ ⟨rfl, hempty, rfl, rfl, rfl, rfl, .inr rfl⟩
    · exact heq ▸ ⟨rfl, hempty, rfl, rfl, rfl, rfl, .inr rfl⟩
    · cases hempty.symm.trans hsome
  | refresh =>
    change Untouched g g.refresh.1
    unfold refresh
    split <;> exact ⟨rfl, hempty, rfl, rfl, rfl, rfl, .inl rfl⟩
  | subscribe listener reply? => exact ⟨rfl, hempty, rfl, rfl, rfl, rfl, .inl rfl⟩
  | unsubscribe handle =>
    exact ⟨rfl, hempty, rfl, rfl, status_unsubscribe g handle, rfl, .inl rfl⟩

theorem withLoad_untouched (hempty : g.edits.isEmpty = true) (load : Nat)
    (answer : Except Failure Categories) : Untouched g (g.withLoad load answer) :=
  ⟨rfl, hempty, rfl, rfl, rfl, rfl, .inl rfl⟩

theorem IdleFrom.mono {till' : Rat} (h : g.IdleFrom till) (hle : till' ≤ till) :
    g.IdleFrom till' := by
  have hreached := h.reached
  exact ⟨h.toCleared, h.status, by grind⟩

/-- An empty flight makes the indicator idle, and is over. -/
theorem Cleared.takeOff (h : g.Cleared) (haloof : Aloof acting)
    (hallows : g.status.canBecome .idle = true) :
    (g.takeOff acting).IdleFrom g.now ∧ (g.takeOff acting).now = g.now := by
  change (sendBatch acting { g with requested := false }).IdleFrom g.now ∧
    (sendBatch acting { g with requested := false }).now = g.now
  rcases sendBatch_cases acting { g with requested := false } with
    ⟨-, -, g', htold, heq⟩ | ⟨hsome, -⟩ | ⟨hrefused, -⟩
  · obtain ⟨notices, outbox, rfl, -⟩ := htold.of_aloof haloof
    rw [heq]
    exact ⟨⟨⟨h.opened, h.edits, .inl rfl⟩, rfl, Rat.le_refl⟩, rfl⟩
  · cases h.edits.symm.trans hsome
  · rw [if_pos h.edits] at hrefused
    cases hallows.symm.trans hrefused

/-- When a quiet period is over, an empty flight is asked for. -/
theorem Cleared.quietOver (h : g.Cleared) (acting : Acting ω) :
    ∃ requested outbox, g.turn acting .quietOver =
      { g with quiet := g.quiet.cancel, flight := .waiting, requested, outbox } := by
  change ∃ requested outbox, Engine.quietOver { g with quiet := g.quiet.cancel } = _
  rcases quietOver_cases { g with quiet := g.quiet.cancel } with
    ⟨hclosed, -⟩ | ⟨-, hflying, heq⟩ | ⟨-, -, heq⟩
  · cases h.opened.symm.trans hclosed
  · -- it was asked for already
    have hwaiting : g.flight = .waiting := by
      refine h.flight.resolve_left fun hnone => ?_
      simp [flying, hnone] at hflying
    exact ⟨true, g.outbox, by rw [heq, ← hwaiting]⟩
  · exact ⟨g.requested, g.outbox ++ [.takeOff], by rw [heq]; rfl⟩

/-- When the time is over for which a save is shown, the indicator is idle. -/
theorem Cleared.shownOver (h : g.Cleared) (haloof : Aloof acting) (hsaved : g.status = .saved)
    (hreached : till ≤ g.now) : (g.turn acting .shownOver).IdleFrom till := by
  have htold := shownOver_of_saved (g := { g with shown := g.shown.cancel }) acting h.opened hsaved
  obtain ⟨notices, outbox, heq, -⟩ := htold.of_aloof haloof
  change (Engine.shownOver acting { g with shown := g.shown.cancel }).IdleFrom till
  rw [heq]
  exact ⟨⟨h.opened, h.edits, h.flight⟩, rfl, hreached⟩

/-- The expiries that the engine waits for. -/
def armings (g : Engine ω) : List Arming := g.quiet.pending.toList ++ g.shown.pending.toList

theorem mem_armings {a : Arming} :
    a ∈ g.armings ↔ g.quiet.pending = some a ∨ g.shown.pending = some a := by
  simp [armings]

end Engine

namespace Course

/-- Timers expire when they are due: time does not go on past the end of one that is armed. -/
def Punctual (c : Course ω) : Event ω → Prop
  | .wait seconds => ∀ a ∈ c.engine.armings, c.engine.now + seconds ≤ max c.engine.now a.due
  | _ => True

instance (c : Course ω) : (ev : Event ω) → Decidable (c.Punctual ev)
  | .wait seconds => inferInstanceAs (Decidable (∀ a ∈ c.engine.armings,
      c.engine.now + seconds ≤ max c.engine.now a.due))
  | .call _ | .turn _ => isTrue trivial

/-- The flight of a cleared engine gets no answers. -/
theorem not_ready_of_cleared {c : Course ω} (h : c.engine.Cleared) :
    (∀ answer, ¬ c.Ready (.turn (.updated answer))) ∧
      ∀ answer, ¬ c.Ready (.turn (.reloaded answer)) := by
  constructor
  · rintro answer ⟨batch, hflight⟩
    obtain hs | hs := h.flight <;> cases hs.symm.trans hflight
  · rintro answer ⟨batch, rows, load, hflight⟩
    obtain hs | hs := h.flight <;> cases hs.symm.trans hflight

theorem idleFrom_after {c : Course ω} {ev : Event ω} (h : c.engine.IdleFrom till)
    (haloof : Aloof acting) (hready : c.Ready ev) (hbides : ev.Bides) :
    (c.engine.after acting ev).IdleFrom till := by
  have hshows : c.engine.showsEdits = false := by simp [Engine.showsEdits, h.status]
  cases ev with
  | call call => exact (Engine.call_untouched acting h.edits hshows hbides).idleFrom h
  | wait seconds =>
    have hlater : 0 ≤ seconds := hready
    have hreached : till ≤ c.engine.now + seconds := by grind [h.reached]
    exact ⟨⟨h.opened, h.edits, h.flight⟩, h.status, hreached⟩
  | turn t =>
    cases t with
    | quietOver =>
      obtain ⟨requested, outbox, heq⟩ := h.quietOver acting
      change (c.engine.turn acting .quietOver).IdleFrom till
      rw [heq]
      exact ⟨⟨h.opened, h.edits, .inr rfl⟩, h.status, h.reached⟩
    | shownOver =>
      change (Engine.shownOver acting _).IdleFrom till
      rcases Engine.shownOver_cases acting { c.engine with shown := c.engine.shown.cancel } with
        heq | ⟨-, hsaved, -⟩
      · rw [heq]
        exact ⟨⟨h.opened, h.edits, h.flight⟩, h.status, h.reached⟩
      · cases h.status.symm.trans hsaved
    | takeOff =>
      exact (h.toCleared.takeOff haloof (by rw [h.status]; rfl)).1.mono h.reached
    | updated answer => exact ((not_ready_of_cleared h.toCleared).1 answer hready).elim
    | reloaded answer => exact ((not_ready_of_cleared h.toCleared).2 answer hready).elim
    | loaded load answer =>
      change (c.engine.turn acting (.loaded load answer)).IdleFrom till
      rw [Engine.turn_loaded]
      exact (Engine.withLoad_untouched h.edits load answer).idleFrom h

theorem shownTill_after {c : Course ω} {ev : Event ω} (h : c.engine.ShownTill till)
    (haloof : Aloof acting) (hready : c.Ready ev) (hpunctual : c.Punctual ev)
    (hbides : ev.Bides) :
    (c.engine.after acting ev).ShownTill till ∨ (c.engine.after acting ev).IdleFrom till := by
  have hshows : c.engine.showsEdits = false := by simp [Engine.showsEdits, h.status]
  obtain ⟨a, ha, htill⟩ := h.shown
  cases ev with
  | call call => exact .inl ((Engine.call_untouched acting h.edits hshows hbides).shownTill h)
  | wait seconds =>
    have hlater : 0 ≤ seconds := hready
    have hbound := hpunctual a (Engine.mem_armings.2 (.inr ha))
    refine .inl ⟨⟨h.opened, h.edits, h.flight⟩, h.status, ⟨a, ha, ?_⟩, ?_, ?_⟩
    · change max (c.engine.now + seconds) a.due = till
      grind
    · intro a' ha'
      have hquiet := h.quiet a' ha'
      change till ≤ max (c.engine.now + seconds) a'.due
      grind
    · intro hwaiting
      have hreached := h.waiting hwaiting
      change till ≤ c.engine.now + seconds
      grind
  | turn t =>
    cases t with
    | quietOver =>
      obtain ⟨requested, outbox, heq⟩ := h.quietOver acting
      obtain ⟨a', ha'⟩ := Option.isSome_iff_exists.1 hready
      obtain ⟨hpending, hdue⟩ := Timer.due?_eq_some_iff.1 ha'
      have hreached : till ≤ c.engine.now := by
        have hquiet := h.quiet a' hpending
        grind
      change (c.engine.turn acting .quietOver).ShownTill till ∨ _
      rw [heq]
      exact .inl ⟨⟨h.opened, h.edits, .inr rfl⟩, h.status, ⟨a, ha, htill⟩,
        (fun _ h => by cases h), fun _ => hreached⟩
    | shownOver =>
      obtain ⟨a', ha'⟩ := Option.isSome_iff_exists.1 hready
      obtain ⟨hpending, hdue⟩ := Timer.due?_eq_some_iff.1 ha'
      have hreached : till ≤ c.engine.now := by
        cases ha.symm.trans hpending
        grind
      exact .inr (h.toCleared.shownOver haloof h.status hreached)
    | takeOff =>
      exact .inr ((h.toCleared.takeOff haloof (by rw [h.status]; rfl)).1.mono (h.waiting hready))
    | updated answer => exact ((not_ready_of_cleared h.toCleared).1 answer hready).elim
    | reloaded answer => exact ((not_ready_of_cleared h.toCleared).2 answer hready).elim
    | loaded load answer =>
      change (c.engine.turn acting (.loaded load answer)).ShownTill till ∨ _
      rw [Engine.turn_loaded]
      exact .inl ((Engine.withLoad_untouched h.edits load answer).shownTill h)

/-- As long as nobody makes an edit, a save is shown until the moment `till` and not longer. -/
theorem Leads.shownTill {c c' : Course ω}
    (h : c.Leads (fun c ev => c.Punctual ev ∧ ev.Bides) Aloof c')
    (hshown : c.engine.ShownTill till) :
    c'.engine.ShownTill till ∨ c'.engine.IdleFrom till := by
  induction h with
  | refl => exact .inl hshown
  | @step c' acting ev _ haloof hready hev ih =>
    -- that the outbox is emptied matters to neither
    have hsaid {g : Engine ω} (hg : g.ShownTill till ∨ g.IdleFrom till) :
        Engine.ShownTill till { g with outbox := [] } ∨
          Engine.IdleFrom till { g with outbox := [] } :=
      hg.imp
        (fun h => ⟨⟨h.opened, h.edits, h.flight⟩, h.status, h.shown, h.quiet, h.waiting⟩)
        fun h => ⟨⟨h.opened, h.edits, h.flight⟩, h.status, h.reached⟩
    obtain hshown | hidle := ih
    · exact hsaid (shownTill_after hshown haloof hready hev.1 hev.2)
    · exact hsaid (.inr (idleFrom_after hidle haloof hready hev.2))

/-- A quiet period that is still running when a save comes to be shown ends it when it is over. -/
theorem exists_idle_of_quiet {c : Course ω} (h : c.engine.JustSaved) {a : Arming}
    (hquiet : c.engine.quiet.pending = some a)
    (hbefore : max c.engine.now a.due < c.engine.now + c.engine.shown.delay) :
    ∃ c', c.Leads (fun c ev => c.Punctual ev ∧ ev.Bides) Aloof c' ∧
      c'.engine.status = .idle ∧ c'.engine.now = max c.engine.now a.due := by
  let seconds := max c.engine.now a.due - c.engine.now
  let c₁ := c.after .silent (.wait seconds)
  let c₂ := c₁.after .silent (.turn .quietOver)
  have hnow : c.engine.now + seconds = max c.engine.now a.due := by grind
  have hcleared : c₁.engine.Cleared := ⟨h.opened, h.edits, .inl h.flight⟩
  obtain ⟨requested, outbox, heq⟩ := hcleared.quietOver .silent
  have hquietOver : c₂.engine =
      { c₁.engine with
        quiet := c₁.engine.quiet.cancel, flight := .waiting, requested, outbox := [] } := by
    change { c₁.engine.turn .silent .quietOver with outbox := [] } = _
    rw [heq]
  have hcleared₂ : c₂.engine.Cleared := by
    rw [hquietOver]
    exact ⟨h.opened, h.edits, .inr rfl⟩
  have hallows : c₂.engine.status.canBecome .idle = true := by
    rw [hquietOver]
    change c.engine.status.canBecome .idle = true
    rw [h.status]
    rfl
  obtain ⟨hidle, hstill⟩ := hcleared₂.takeOff aloof_silent hallows
  have hwait : c.Ready (.wait seconds) := by
    change 0 ≤ seconds
    grind
  have hpunctual : c.Punctual (.wait seconds) := by
    intro a' ha'
    rw [hnow]
    obtain ha' | ha' := Engine.mem_armings.1 ha'
    · cases hquiet.symm.trans ha'
      exact Rat.le_refl
    · obtain ⟨shown, hshown, hdue⟩ := h.shown
      cases hshown.symm.trans ha'
      grind
  have hexpires : c₁.Ready (.turn .quietOver) := by
    change (c.engine.quiet.due? (c.engine.now + seconds)).isSome = true
    rw [Timer.due?_eq_some_iff.2 ⟨hquiet, by grind⟩]
    rfl
  have hasked : c₂.Ready (.turn .takeOff) := by
    change c₂.engine.flight = .waiting
    rw [hquietOver]
  refine ⟨c₂.after .silent (.turn .takeOff), ?_, hidle.status, ?_⟩
  · exact ((Leads.refl.step aloof_silent hwait ⟨hpunctual, trivial⟩).step aloof_silent hexpires
      ⟨trivial, trivial⟩).step aloof_silent hasked ⟨trivial, trivial⟩
  · refine hstill.trans ?_
    rw [hquietOver]
    exact hnow

/-- A save is shown exactly as long as it is to be shown, from the moment on when it comes to be
shown, if nobody makes an edit or ends the engine: unless a quiet period is still running then that
ends before. -/
theorem saved_lasts_iff {metas : MetaTable} {rules : List CrossRule} {quietPeriod shownFor : Rat}
    {c : Course ω} {ev : Event ω}
    (hc : (start metas rules quietPeriod shownFor).Leads (fun _ _ => True) Aloof c)
    (haloof : Aloof acting) (hready : c.Ready ev) (hbefore : c.engine.status ≠ .saved)
    (hsaved : (c.after acting ev).engine.status = .saved) :
    let c' := c.after acting ev
    let till := max c'.engine.now (c'.engine.now + shownFor)
    (∀ c'', c'.Leads (fun c ev => c.Punctual ev ∧ ev.Bides) Aloof c'' →
      (c''.engine.status = .saved ∧ c''.engine.now ≤ till) ∨
        (c''.engine.status = .idle ∧ till ≤ c''.engine.now)) ↔
      ∀ a, c'.engine.quiet.pending = some a → till ≤ max c'.engine.now a.due := by
  intro c' till
  have hdelay : c'.engine.shown.delay = shownFor :=
    (hc.step haloof hready trivial).shown_delay
  have hjust : c'.engine.JustSaved := by
    obtain ⟨hopen, hstatus, hempty, hnone, hshown⟩ :=
      Engine.justSaved_after haloof hbefore hsaved
    exact ⟨hopen, hstatus, hempty, hnone, hshown⟩
  constructor
  · -- otherwise that quiet period would make the indicator idle too early
    intro hlasts a ha
    apply Classical.byContradiction
    intro hnot
    obtain ⟨c'', hleads, hidle, hnow⟩ := exists_idle_of_quiet hjust ha (by grind)
    obtain ⟨hs, -⟩ | ⟨-, hreached⟩ := hlasts c'' hleads
    · cases hs.symm.trans hidle
    · exact hnot (hnow ▸ hreached)
  · intro hquiet c'' hleads
    obtain ⟨a, ha, hdue⟩ := hjust.shown
    have hshown : c'.engine.ShownTill till :=
      ⟨⟨hjust.opened, hjust.edits, .inl hjust.flight⟩, hjust.status,
        ⟨a, ha, by rw [hdue, hdelay]⟩, hquiet, fun hwaiting => nomatch hjust.flight ▸ hwaiting⟩
    obtain hstill | hidle := hleads.shownTill hshown
    · obtain ⟨a', -, htill⟩ := hstill.shown
      exact .inl ⟨hstill.status, by grind⟩
    · exact .inr ⟨hidle.status, hidle.reached⟩

/-- An edit is stored while nothing else happens. -/
def storedAlone : List (Event Unit) :=
  [.call (.change "key" "first"), .wait 1, .turn .quietOver, .turn .takeOff,
    .turn (.updated (.ok []))]

/-- Two more edits are made while the first one is being stored. When the quiet period of the second
one is over the flight is asked to go round, and it takes the third one with it, whose quiet period
has just begun. -/
def storedInARow : List (Event Unit) :=
  [.call (.change "key" "first"), .wait 1, .turn .quietOver, .turn .takeOff,
    .call (.change "key" "second"), .wait 1, .turn .quietOver, .call (.change "key" "third"),
    .turn (.updated (.ok [])), .turn (.reloaded (.ok [])), .turn (.updated (.ok []))]

/-- The save of a single edit is shown as long as it is to be shown. The save of edits that were
made in a row is not. -/
theorem saved_lasts_alone :
    let last : Event Unit := .turn (.reloaded (.ok []))
    let alone : Course Unit := ((start [] [] 1 2).run .silent storedAlone).after .silent last
    let inARow : Course Unit := ((start [] [] 1 2).run .silent storedInARow).after .silent last
    (∀ c, alone.Leads (fun c ev => c.Punctual ev ∧ ev.Bides) Aloof c →
      (c.engine.status = .saved ∧ c.engine.now ≤ 3) ∨
        (c.engine.status = .idle ∧ 3 ≤ c.engine.now)) ∧
    ¬ ∀ c, inARow.Leads (fun c ev => c.Punctual ev ∧ ev.Bides) Aloof c →
      (c.engine.status = .saved ∧ c.engine.now ≤ 4) ∨
        (c.engine.status = .idle ∧ 4 ≤ c.engine.now) := by
  intro last alone inARow
  have halone : (start [] [] 1 2).Leads (fun _ _ => True) Aloof
      ((start [] [] 1 2).run .silent storedAlone) :=
    leads_run aloof_silent (by decide +kernel) fun _ _ _ => trivial
  have hinARow : (start [] [] 1 2).Leads (fun _ _ => True) Aloof
      ((start [] [] 1 2).run .silent storedInARow) :=
    leads_run aloof_silent (by decide +kernel) fun _ _ _ => trivial
  have hready : ((start [] [] 1 2).run .silent storedAlone).Ready last := ⟨_, _, _, rfl⟩
  have hready' : ((start [] [] 1 2).run .silent storedInARow).Ready last := ⟨_, _, _, rfl⟩
  have htill : max alone.engine.now (alone.engine.now + 2) = 3 := by decide +kernel
  have htill' : max inARow.engine.now (inARow.engine.now + 2) = 4 := by decide +kernel
  rw [← htill, ← htill']
  constructor
  · refine (saved_lasts_iff halone aloof_silent hready (by decide) (by decide)).2 ?_
    rintro a ⟨⟩
  · intro hlasts
    -- the quiet period of the third edit is over a second after the save comes to be shown
    have hquiet : inARow.engine.quiet.pending = some ⟨3, 3⟩ := by decide +kernel
    have hshort :=
      (saved_lasts_iff hinARow aloof_silent hready' (by decide) (by decide)).1 hlasts _ hquiet
    exact absurd hshort (by decide +kernel)

theorem punctual_storedInARow :
    (start [] [] 1 2).Leads Punctual Aloof ((start [] [] 1 2).run .silent storedInARow) := by
  have hmeets : (start [] [] 1 2).Meets Punctual .silent storedInARow :=
    ⟨trivial, by decide +kernel, trivial, trivial, trivial, by decide +kernel, trivial, trivial,
      trivial, trivial, trivial, trivial⟩
  exact hmeets.leads aloof_silent (by decide +kernel)

/-- A save that is to be shown for two seconds is shown for one second only, though no edit is made
and the engine is not ended: all timers expire when they are due. -/
theorem saved_is_cut_short :
    ∃ (c c' : Course Unit) (ev : Event Unit), (start [] [] 1 2).Leads Punctual Aloof c ∧
      c.Ready ev ∧ c.engine.status ≠ .saved ∧ (c.after .silent ev).engine.status = .saved ∧
      (c.after .silent ev).Leads (fun c ev => c.Punctual ev ∧ ev.Bides) Aloof c' ∧
      c'.engine.status = .idle ∧ c'.engine.now = (c.after .silent ev).engine.now + 1 := by
  let c : Course Unit := (start [] [] 1 2).run .silent storedInARow
  let last : Event Unit := .turn (.reloaded (.ok []))
  let saved := c.after .silent last
  let later : List (Event Unit) := [.wait 1, .turn .quietOver, .turn .takeOff]
  have hmeets : saved.Meets (fun c ev => c.Punctual ev ∧ ev.Bides) .silent later :=
    ⟨⟨by decide +kernel, trivial⟩, ⟨trivial, trivial⟩, ⟨trivial, trivial⟩, trivial⟩
  have hready : c.Ready last := ⟨_, _, _, rfl⟩
  exact ⟨c, saved.run .silent later, last, punctual_storedInARow, hready, by decide, by decide,
    hmeets.leads aloof_silent (by decide +kernel), by decide +kernel, by decide +kernel⟩

end Course

end DeferredSave
