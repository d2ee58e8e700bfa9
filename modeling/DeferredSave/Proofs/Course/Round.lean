import DeferredSave.Proofs.Course.Ledger

/-!
# What a round of a flight leaves as it is

With listeners that leave the engine alone, a round of the flight touches neither the edits nor the
timers, but that it may start the time anew for which a save is shown; and the batch that it sends,
if any, holds all edits (`Engine.Rounds`). So the lengths of both timers are those that the engine
was started with (`Course.Leads.shown_delay`).
-/

namespace DeferredSave

variable {ω : Type} {acting : Engine.Acting ω} {g g' : Engine ω}

namespace Engine

/-! ## The end of a round -/

/-- The engine `g'` has come to the end of a round that began with `g`. -/
structure Rounds (g g' : Engine ω) : Prop where
  edits : g'.edits = g.edits
  quiet : g'.quiet = g.quiet
  shown : g'.shown.delay = g.shown.delay
  flight : g'.flight = .none ∨
    ∃ batch, g'.flight = .saving batch ∧ ∀ e ∈ g.edits.edits, batch.Holds e

theorem Rounds.of_eq {g₀ : Engine ω} (h : Rounds g g') (hedits : g.edits = g₀.edits)
    (hquiet : g.quiet = g₀.quiet) (hshown : g.shown.delay = g₀.shown.delay) : Rounds g₀ g' where
  edits := h.edits.trans hedits
  quiet := h.quiet.trans hquiet
  shown := h.shown.trans hshown
  flight := hedits ▸ h.flight

theorem rounds_land (g : Engine ω) (failure? : Option Failure) : Rounds g (g.land failure?) :=
  ⟨rfl, rfl, rfl, .inl rfl⟩

section Rounding

variable (haloof : Aloof acting)
include haloof

theorem sendBatch_rounds (g : Engine ω) : Rounds g (g.sendBatch acting) := by
  rcases sendBatch_cases acting g with
    ⟨-, -, g', htold, heq⟩ | ⟨-, -, g', htold, heq⟩ | ⟨-, failure?, heq⟩
  · obtain ⟨notices, outbox, rfl, -⟩ := htold.of_aloof haloof
    rw [heq]
    exact (rounds_land _ none).of_eq rfl rfl rfl
  · obtain ⟨notices, outbox, rfl, -⟩ := htold.of_aloof haloof
    rw [heq]
    exact ⟨rfl, rfl, rfl, .inr ⟨_, rfl, fun e he => EditBuffer.snapshot_holds.2 he⟩⟩
  · rw [heq]
    exact (rounds_land _ failure?).of_eq rfl rfl rfl

theorem endRound_rounds (g : Engine ω) : Rounds g (g.endRound acting) := by
  rcases endRound_cases acting g with ⟨-, heq⟩ | ⟨-, heq⟩
  · rw [heq]
    exact (sendBatch_rounds haloof _).of_eq rfl rfl rfl
  · rw [heq]
    exact (rounds_land _ none).of_eq rfl rfl rfl

/-- A round may end after listeners were told. -/
theorem endRound_rounds_of_told {e : StatusEvent} (htold : Told acting e.target (g.shows e) g')
    {shown : Timer} (hshown : shown.delay = g'.shown.delay) :
    Rounds g (endRound acting { g' with shown }) := by
  obtain ⟨notices, outbox, rfl, -⟩ := htold.of_aloof haloof
  exact (endRound_rounds haloof _).of_eq rfl rfl hshown

theorem showSaved_rounds (g : Engine ω) : Rounds g (g.showSaved acting) := by
  rcases showSaved_cases acting g with ⟨-, g', htold, heq⟩ | ⟨-, g', htold, heq⟩
  · rw [heq]
    exact endRound_rounds_of_told haloof (e := .saved) htold rfl
  · rw [heq]
    exact endRound_rounds_of_told haloof (e := .idle) htold rfl

theorem confirm_rounds (g : Engine ω) (batch : Batch) (rows : List Setting) (installed : Bool) :
    Rounds (g.confirmed batch rows installed) (g.confirm acting batch rows installed) := by
  rcases confirm_cases acting g batch rows installed with
    ⟨failure, -, heq⟩ | ⟨-, heq⟩ | ⟨-, heq⟩
  · exact heq ▸ rounds_land _ _
  · exact heq ▸ showSaved_rounds haloof _
  · exact heq ▸ endRound_rounds haloof _

/-- When a batch is answered, the catalog is to be loaded again or the flight has gone its round. -/
theorem updated_rounds {batch : Batch} (hflight : g.flight = .saving batch)
    (answer : Except Failure (List Setting)) :
    Rounds g (g.updated acting answer) ∨
      ∃ rows, answer = .ok rows ∧ g.updated acting answer = g.reloads batch rows := by
  rcases updated_cases acting hflight answer with
    ⟨-, heq⟩ | ⟨-, rows, hanswer, heq⟩ | ⟨-, f, -, ⟨-, failure?, heq⟩ | ⟨g', htold, heq⟩⟩
  · exact .inl (heq ▸ endRound_rounds haloof g)
  · exact .inr ⟨rows, hanswer, heq⟩
  · exact .inl (heq ▸ rounds_land g failure?)
  · exact .inl (heq ▸ endRound_rounds_of_told haloof (e := .failed _) htold rfl)

/-- When the load after a save is answered, the flight has gone its round with some edits. -/
theorem reloaded_rounds {batch : Batch} {rows : List Setting} {load : Nat}
    (hflight : g.flight = .reloading batch rows load) (answer : Except Failure Categories) :
    ∃ edits, Rounds { g with edits } (g.reloaded acting answer) := by
  rcases reloaded_cases acting hflight answer with ⟨-, heq⟩ | ⟨f, -, -, heq⟩ | ⟨-, -, heq⟩
  · rw [heq]
    exact ⟨g.edits, (endRound_rounds haloof _).of_eq rfl rfl rfl⟩
  · rw [heq]
    exact ⟨g.edits, (rounds_land _ _).of_eq rfl rfl rfl⟩
  · rw [heq]
    exact ⟨_, (confirm_rounds haloof (g.withLoad load answer) batch rows _).of_eq rfl rfl rfl⟩

/-! ## How long a save is to be shown -/

theorem shown_delay_turn (g : Engine ω) (t : Turn) :
    (g.turn acting t).shown.delay = g.shown.delay := by
  cases t with
  | quietOver =>
    change (quietOver _).shown.delay = _
    rcases quietOver_cases { g with quiet := g.quiet.cancel } with
      ⟨-, heq⟩ | ⟨-, -, heq⟩ | ⟨-, -, heq⟩ <;> exact congrArg (·.shown.delay) heq
  | shownOver =>
    change (shownOver acting _).shown.delay = _
    rcases shownOver_cases acting { g with shown := g.shown.cancel } with heq | ⟨-, -, htold⟩
    · rw [heq]
      rfl
    · obtain ⟨notices, outbox, heq, -⟩ := htold.of_aloof haloof
      rw [heq]
      rfl
  | takeOff => exact (sendBatch_rounds haloof _).shown
  | updated answer =>
    change (g.updated acting answer).shown.delay = _
    cases hflight : g.flight with
    | saving batch =>
      obtain hrounds | ⟨rows, -, heq⟩ := updated_rounds haloof hflight answer
      · exact hrounds.shown
      · rw [heq]
        rfl
    | none | waiting | reloading => simp [updated, hflight]
  | reloaded answer =>
    change (g.reloaded acting answer).shown.delay = _
    cases hflight : g.flight with
    | reloading batch rows load =>
      obtain ⟨edits, hrounds⟩ := reloaded_rounds haloof hflight answer
      exact hrounds.shown
    | none | waiting | saving => simp [reloaded, hflight]
  | loaded load answer =>
    rw [turn_loaded]
    rfl

end Rounding

theorem shown_delay_abiding (delay : Rat) :
    Abiding (fun _ _ => True) fun g : Engine ω => g.shown.delay = delay where
  unspoken := ⟨fun _ _ _ h => h, fun _ _ h => h⟩
  edit := fun _ _ _ _ h => h
  quiet := fun _ h => h
  drop := fun _ _ h => h
  rest := fun _ _ _ h => h
  close := fun h => h
  subscribe := fun _ _ h => h
  unsubscribe := fun _ h => h
  request := fun _ h => h
  launch := fun _ h => h
  load := fun h => h

end Engine

/-- A save is to be shown as long as the engine was started with. -/
theorem Course.Leads.shown_delay {events : Course ω → Event ω → Prop} {c c' : Course ω}
    (h : c.Leads events Aloof c') : c'.engine.shown.delay = c.engine.shown.delay := by
  induction h with
  | refl => rfl
  | @step c' acting ev _ haloof _ _ ih =>
    rw [← ih]
    cases ev with
    | call call =>
      have habiding : Engine.Abiding (fun _ _ => True) fun g : Engine ω =>
          g.shown.delay = c'.engine.shown.delay :=
        Engine.shown_delay_abiding _
      exact habiding.call (habiding.keeps haloof.listening) trivial rfl
    | turn t => exact Engine.shown_delay_turn haloof c'.engine t
    | wait seconds => rfl

end DeferredSave
