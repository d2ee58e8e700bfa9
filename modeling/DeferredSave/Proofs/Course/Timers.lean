import DeferredSave.Proofs.Course.Stretch

/-!
# How timers go on

A timer is armed anew or stopped, and nothing else happens to it. As each arming has a number of its
own, an arming that a timer still waits for is one from before, or one with a number that is new
(`Engine.later_after`).
-/

namespace DeferredSave

/-- The timer `t'` is `t` some time later. -/
structure Timer.Later (t t' : Timer) : Prop where
  armings : t.armings ≤ t'.armings
  pending : ∀ a, t'.pending = some a →
    t.pending = some a ∨ (t.armings < a.number ∧ a.number ≤ t'.armings)

namespace Timer

variable {t t' t'' : Timer}

theorem Later.refl (t : Timer) : Later t t := ⟨Nat.le_refl _, fun _ => .inl⟩

theorem Later.trans (h : Later t t') (h' : Later t' t'') : Later t t'' where
  armings := Nat.le_trans h.armings h'.armings
  pending := by
    intro a ha
    have hle := h.armings
    have hle' := h'.armings
    -- an arming of the first stretch is older than those of the second
    obtain ha' | ⟨hnew, hold⟩ := h'.pending a ha
    · exact (h.pending a ha').imp_right fun ⟨hnew, hold⟩ => ⟨hnew, by omega⟩
    · exact .inr ⟨by omega, hold⟩

theorem later_cancel (t : Timer) : Later t t.cancel := ⟨Nat.le_refl _, nofun⟩

theorem later_arm (t : Timer) (now : Rat) : Later t (t.arm now) where
  armings := Nat.le_succ _
  pending := by
    rintro _ ⟨⟩
    exact .inr ⟨Nat.lt_succ_self _, Nat.le_refl _⟩

end Timer

namespace Engine

variable {ω : Type} {acting : Acting ω} {g g' g₀ : Engine ω}
  {admitted : Engine ω → Call ω → Prop}

/-- The clock and the timers of `g` are those of `g₀` some time later. -/
structure Later (g₀ g : Engine ω) : Prop where
  now : g₀.now ≤ g.now
  quiet : g₀.quiet.Later g.quiet
  shown : g₀.shown.Later g.shown

theorem Later.refl (g : Engine ω) : Later g g := ⟨Rat.le_refl, .refl _, .refl _⟩

theorem Later.of_eq (h : g' = g) : Later g g' := h ▸ .refl g

theorem Later.trans (h : Later g₀ g) (h' : Later g g') : Later g₀ g' :=
  ⟨Rat.le_trans h.now h'.now, h.quiet.trans h'.quiet, h.shown.trans h'.shown⟩

theorem later_of_timers (hnow : g'.now = g.now) (hquiet : g.quiet.Later g'.quiet)
    (hshown : g.shown.Later g'.shown) : Later g g' :=
  ⟨hnow ▸ Rat.le_refl, hquiet, hshown⟩

theorem Later.same (h : Later g₀ g) (hnow : g'.now = g.now) (hquiet : g'.quiet = g.quiet)
    (hshown : g'.shown = g.shown) : Later g₀ g' :=
  h.trans (later_of_timers hnow (hquiet ▸ .refl _) (hshown ▸ .refl _))

theorem Later.quieted (h : Later g₀ g) : Later g₀ { g with quiet := g.quiet.cancel } :=
  h.trans (later_of_timers rfl g.quiet.later_cancel (.refl _))

/-! ## Calls -/

theorem Later.close (h : Later g₀ g) : Later g₀ g.close := by
  unfold Engine.close
  split
  · exact h
  · exact h.trans (later_of_timers rfl g.quiet.later_cancel g.shown.later_cancel)

section

variable (hkeeps : Keeps (Later g₀) acting)
include hkeeps

theorem Later.change (h : Later g₀ g) (key value : String) :
    Later g₀ (g.change acting key value).1 := by
  cases hclosed : g.closed with
  | true => rwa [change_of_closed hclosed]
  | false =>
    obtain ⟨g', htold, heq⟩ := change_of_open acting hclosed key value
    have hedit : Later g₀ ((g.edit key value).shows .edit) :=
      h.trans (later_of_timers rfl (.refl _) g.shown.later_cancel)
    rw [heq]
    -- listeners hear of the edit before the quiet time begins anew
    exact (htold.keeps hkeeps hedit).trans (later_of_timers rfl (g'.quiet.later_arm _) (.refl _))

theorem Later.discard (h : Later g₀ g) (keys? : Option (List String)) :
    Later g₀ (g.discard acting keys?).1 := by
  have hdropped : Later g₀ { g with edits := (g.edits.discard keys?).1 } := h.same rfl rfl rfl
  rcases discard_cases acting g keys? with heq | ⟨-, heq | ⟨-, -, g', htold, heq⟩⟩
  · rwa [heq]
  · rw [heq]
    exact hdropped.quieted
  · rw [heq]
    exact htold.keeps hkeeps (hdropped.quieted.same rfl rfl rfl)

theorem Later.call (h : Later g₀ g) (c : Call ω) : Later g₀ (g.call acting c) := by
  cases c with
  | change key value => exact h.change hkeeps key value
  | discard keys? => exact h.discard hkeeps keys?
  | close => exact h.close
  | subscribe listener reply? => exact h.same rfl rfl rfl
  | unsubscribe handle => exact h.same rfl rfl rfl
  | flushNow =>
    change Later g₀ g.flushNow.1
    rcases flushNow_cases g with
      ⟨-, heq⟩ | ⟨-, -, heq⟩ | ⟨-, -, -, heq⟩ | ⟨-, -, -, heq⟩ <;> rw [heq]
    · exact h
    · exact h.quieted.same rfl rfl rfl
    · exact h.quieted
    · exact h.quieted.same rfl rfl rfl
  | refresh =>
    change Later g₀ g.refresh.1
    unfold refresh
    split
    · exact h
    · exact h.same rfl rfl rfl

end

theorem later_unspoken (g₀ : Engine ω) : Unspoken (Later g₀) :=
  ⟨fun _ _ _ h => h.same rfl rfl rfl, fun _ _ h => h.same rfl rfl rfl⟩

end Engine

theorem Listening.later {ω : Type} {acting : Engine.Acting ω}
    {admitted : Engine ω → Call ω → Prop} (h : Listening admitted acting) (g₀ : Engine ω) :
    Keeps (Engine.Later g₀) acting :=
  h.keeps (Engine.later_unspoken g₀) fun _ hkeeps _ c _ _ hg => hg.call hkeeps c

namespace Engine

variable {ω : Type} {acting : Acting ω} {g g' g₀ : Engine ω}
  {admitted : Engine ω → Call ω → Prop}

/-! ## Turns -/

section

variable (hkeeps : Keeps (Later g₀) acting)
include hkeeps

/-- Listeners are told of an event. -/
theorem Later.told (h : Later g₀ g) {status : Status} {e : StatusEvent}
    (htold : Told acting status (g.shows e) g') : Later g₀ g' :=
  htold.keeps hkeeps (h.same rfl rfl rfl)

theorem Later.sendBatch (h : Later g₀ g) : Later g₀ (g.sendBatch acting) := by
  have hedited : Later g₀ { g with edited := false } := h.same rfl rfl rfl
  rcases sendBatch_cases acting g with
    ⟨-, -, g', htold, heq⟩ | ⟨-, -, g', htold, heq⟩ | ⟨-, failure?, heq⟩ <;> rw [heq]
  · exact (hedited.told hkeeps htold).same rfl rfl rfl
  · exact (hedited.told hkeeps htold).same rfl rfl rfl
  · exact hedited.same rfl rfl rfl

theorem Later.endRound (h : Later g₀ g) : Later g₀ (g.endRound acting) := by
  have hdone : Later g₀ { g with requested := false } := h.same rfl rfl rfl
  rcases endRound_cases acting g with ⟨-, heq⟩ | ⟨-, heq⟩ <;> rw [heq]
  · exact hdone.sendBatch hkeeps
  · exact hdone.same rfl rfl rfl

theorem Later.updated (h : Later g₀ g) (answer : Except Failure (List Setting)) :
    Later g₀ (g.updated acting answer) := by
  cases hflight : g.flight with
  | saving batch =>
    rcases updated_cases acting hflight answer with
      ⟨-, heq⟩ | ⟨-, rows, -, heq⟩ | ⟨-, f, -, ⟨-, failure?, heq⟩ | ⟨g', htold, heq⟩⟩ <;> rw [heq]
    · exact h.endRound hkeeps
    · exact h.same rfl rfl rfl
    · exact h.same rfl rfl rfl
    · exact (h.told hkeeps htold).endRound hkeeps
  | none | waiting | reloading => simpa [Engine.updated, hflight] using h

theorem Later.showSaved (h : Later g₀ g) : Later g₀ (g.showSaved acting) := by
  rcases showSaved_cases acting g with ⟨-, g', htold, heq⟩ | ⟨-, g', htold, heq⟩ <;> rw [heq]
  · have hshown : Later g' { g' with shown := g'.shown.arm g'.now } :=
      later_of_timers rfl (.refl _) (g'.shown.later_arm g'.now)
    exact ((h.told hkeeps htold).trans hshown).endRound hkeeps
  · exact (h.told hkeeps htold).endRound hkeeps

theorem Later.confirm (h : Later g₀ g) (batch : Batch) (rows : List Setting) (installed : Bool) :
    Later g₀ (g.confirm acting batch rows installed) := by
  have hdone : Later g₀ (g.confirmed batch rows installed) := h.same rfl rfl rfl
  rcases confirm_cases acting g batch rows installed with
    ⟨failure, -, heq⟩ | ⟨-, heq⟩ | ⟨-, heq⟩ <;> rw [heq]
  · exact hdone.same rfl rfl rfl
  · exact hdone.showSaved hkeeps
  · exact hdone.endRound hkeeps

theorem Later.reloaded (h : Later g₀ g) (answer : Except Failure Categories) :
    Later g₀ (g.reloaded acting answer) := by
  cases hflight : g.flight with
  | reloading batch rows load =>
    have hload : Later g₀ (g.withLoad load answer) := h.same rfl rfl rfl
    rcases reloaded_cases acting hflight answer with
      ⟨-, heq⟩ | ⟨f, -, -, heq⟩ | ⟨-, -, heq⟩ <;> rw [heq]
    · exact hload.endRound hkeeps
    · exact hload.same rfl rfl rfl
    · exact hload.confirm hkeeps batch rows _
  | none | waiting | saving => simpa [Engine.reloaded, hflight] using h

theorem Later.turn (h : Later g₀ g) (t : Turn) : Later g₀ (g.turn acting t) := by
  cases t with
  | quietOver =>
    change Later g₀ (Engine.quietOver _)
    rcases quietOver_cases { g with quiet := g.quiet.cancel } with
      ⟨-, heq⟩ | ⟨-, -, heq⟩ | ⟨-, -, heq⟩ <;> rw [heq] <;> exact h.quieted.same rfl rfl rfl
  | shownOver =>
    have hshown : Later g₀ { g with shown := g.shown.cancel } :=
      h.trans (later_of_timers rfl (.refl _) g.shown.later_cancel)
    change Later g₀ (Engine.shownOver acting _)
    rcases shownOver_cases acting { g with shown := g.shown.cancel } with heq | ⟨-, -, htold⟩
    · rwa [heq]
    · exact hshown.told hkeeps htold
  | takeOff =>
    have hdone : Later g₀ { g with requested := false } := h.same rfl rfl rfl
    exact hdone.sendBatch hkeeps
  | updated answer => exact h.updated hkeeps answer
  | reloaded answer => exact h.reloaded hkeeps answer
  | loaded load answer =>
    rw [turn_loaded]
    exact h.same rfl rfl rfl

end

/-- After an event that can happen the timers are those from before, some time later. -/
theorem later_after (hlisten : Listening admitted acting) {c : Course ω} {ev : Event ω}
    (hready : c.Ready ev) : Later c.engine (c.after acting ev).engine := by
  have hkeeps := hlisten.later c.engine
  have hstart := Later.refl c.engine
  have hafter : Later c.engine (c.engine.after acting ev) := by
    cases ev with
    | call call => exact hstart.call hkeeps call
    | turn t => exact hstart.turn hkeeps t
    | wait seconds =>
      have hlater : 0 ≤ seconds := hready
      refine ⟨?_, .refl _, .refl _⟩
      change c.engine.now ≤ c.engine.now + seconds
      grind
  exact hafter.same rfl rfl rfl

end Engine

end DeferredSave
