import DeferredSave.Proofs.Course.Owed

/-!
# How a flight ends

A flight of an open engine that gets its answers goes round or lands, and asks the indicator for
nothing that it refuses on its way (`Engine.Unrefused`). What is shown when it has landed fits to
the edits that are left, unless its batch was not stored (`Engine.updated_ended`).
-/

namespace DeferredSave

variable {ω : Type} {acting : Engine.Acting ω} {g g' : Engine ω} {sent : List Batch}

/-- The status tells whether there are edits. -/
def Fits (s : Status) (b : EditBuffer) : Prop :=
  (b.isEmpty = true ↔ s = .idle ∨ s = .saved) ∧ (b.isEmpty = false ↔ s = .pending ∨ s = .error)

theorem fits_of_isEmpty {s : Status} {b : EditBuffer} (hempty : b.isEmpty = true)
    (hs : s = .idle ∨ s = .saved) : Fits s b := by
  obtain rfl | rfl := hs <;> simp [Fits, hempty]

theorem fits_of_edits {s : Status} {b : EditBuffer} (hsome : b.isEmpty = false)
    (hs : s = .pending ∨ s = .error) : Fits s b := by
  obtain rfl | rfl := hs <;> simp [Fits, hsome]

namespace Engine

/-! ## Events that are not refused -/

/-- No flight has broken off because the indicator refused an event. -/
def Unrefused (g : Engine ω) : Prop := ∀ t, .landed (some (.transition t)) ∉ g.outbox

theorem Unrefused.emit (h : g.Unrefused) {e : Effect ω}
    (he : ∀ t, e ≠ .landed (some (.transition t))) : (g.emit e).Unrefused := by
  intro t hmem
  obtain hmem | hmem := List.mem_append.1 hmem
  · exact h t hmem
  · exact he t (List.mem_singleton.1 hmem).symm

theorem Unrefused.land (h : g.Unrefused) {failure? : Option Failure}
    (hfailure : ∀ t, failure? ≠ some (.transition t)) : (g.land failure?).Unrefused := by
  have hdown : Unrefused { g with flight := .none } := h
  apply hdown.emit
  intro t heq
  exact hfailure t (Effect.landed.inj heq)

theorem unrefused_unspoken : Unspoken fun g : Engine ω => g.Unrefused where
  tell := fun _ _ _ h => h
  order := by
    intro g ws h t hmem
    obtain hmem | hmem := List.mem_append.1 hmem
    · exact h t hmem
    · simp at hmem

theorem Told.unrefused {status : Status} (htold : Told acting status g g') (haloof : Aloof acting)
    (h : g.Unrefused) : g'.Unrefused :=
  htold.keeps (haloof.keeps unrefused_unspoken) h

end Engine

theorem Course.Sound.unrefused {c : Course ω} (h : c.Sound) : c.engine.Unrefused := by
  intro t
  simp [h.said]

namespace Engine

/-! ## The end of a stretch -/

/-- An engine with a batch under way can show a failure. -/
theorem updated_error (acting : Acting ω) (howed : Owed sent g) (hopen : g.closed = false)
    {batch : Batch} (hflight : g.flight = .saving batch) (f : Failure) :
    ∃ g', Told acting .error (g.shows (.failed (saveError f))) g' ∧
      g.updated acting (.error f) = g'.endRound acting := by
  have hbatch : g.flight.batch? = some batch := by rw [hflight]; rfl
  rcases updated_cases acting hflight (.error f) with
    ⟨hclosed, -⟩ | ⟨-, rows, hok, -⟩ | ⟨-, _, ⟨⟩, ⟨hrefused, -⟩ | htold⟩
  · exact absurd (hclosed.symm.trans hopen) nofun
  · cases hok
  · obtain hs | ⟨hs, -⟩ := howed.aloft batch hbatch <;> rw [hs] at hrefused <;> cases hrefused
  · exact htold

/-- Nothing was refused, and if the flight is over then what it leaves is as said. -/
structure Ended (P : Status → EditBuffer → Prop) (g : Engine ω) : Prop where
  unrefused : g.Unrefused
  rests : g.flight = .none → P g.status g.edits

theorem Ended.mono {P Q : Status → EditBuffer → Prop} (h : g.Ended P)
    (himp : ∀ s b, P s b → Q s b) : g.Ended Q :=
  ⟨h.unrefused, fun hnone => himp _ _ (h.rests hnone)⟩

section Ending

variable (haloof : Aloof acting)
include haloof

/-- A flight that takes a batch is over only if there are no edits. -/
theorem sendBatch_ended (h : g.Unrefused) (hground : Grounded g.status g.edits) :
    (g.sendBatch acting).Ended fun s b => s = .idle ∧ b.isEmpty = true ∧ b = g.edits := by
  rcases sendBatch_cases acting g with
    ⟨hempty, -, g', htold, heq⟩ | ⟨-, -, g', htold, heq⟩ | ⟨hrefused, -⟩
  · have hun : g'.Unrefused := htold.unrefused haloof h
    obtain ⟨notices, outbox, rfl, -⟩ := htold.of_aloof haloof
    rw [heq]
    exact ⟨hun.land nofun, fun _ => ⟨rfl, hempty, rfl⟩⟩
  · have hun : g'.Unrefused := htold.unrefused haloof h
    have hsaving : Unrefused { g' with flight := .saving g.edits.snapshot } := hun
    rw [heq]
    exact ⟨hsaving.emit nofun, nofun⟩
  · rw [hground.allows] at hrefused
    cases hrefused

/-- A flight that ends its round leaves the edits and the status as they are, if it is over. -/
theorem endRound_ended (h : g.Unrefused)
    (hground : g.goesAround = true → Grounded g.status g.edits) :
    (g.endRound acting).Ended fun s b => s = g.status ∧ b = g.edits := by
  rcases endRound_cases acting g with ⟨hagain, heq⟩ | ⟨-, heq⟩
  · have hsent : (sendBatch acting { g with requested := false }).Ended _ :=
      sendBatch_ended haloof h (hground hagain)
    rw [heq]
    refine ⟨hsent.unrefused, ?_⟩
    intro hnone
    -- it goes round for edits, so it has sent some
    obtain ⟨-, hempty, hedits⟩ := hsent.rests hnone
    have hsome : g.edits.isEmpty = false := (goesAround_iff.1 hagain).2.2.1
    rw [hedits] at hempty
    exact absurd (hempty.symm.trans hsome) nofun
  · have hdone : Unrefused { g with requested := false } := h
    rw [heq]
    exact ⟨hdone.land nofun, fun _ => ⟨rfl, rfl⟩⟩

/-- A flight whose batch is not stored shows the failure, whatever edits there are. -/
theorem updated_ended (h : g.Unrefused) (howed : Owed sent g) (hopen : g.closed = false)
    {batch : Batch} (hflight : g.flight = .saving batch) (answer : Except Failure (List Setting)) :
    (g.updated acting answer).Ended fun s b =>
      (∃ f, answer = .error f) ∧ s = .error ∧ b = g.edits := by
  cases answer with
  | ok rows =>
    have hloads : Unrefused
        { g.startLoad with flight := .reloading batch rows g.startLoad.loads } := h
    rw [updated_ok hflight hopen]
    exact ⟨hloads.emit nofun, nofun⟩
  | error f =>
    obtain ⟨g', htold, heq⟩ := updated_error acting howed hopen hflight f
    have hun : g'.Unrefused := htold.unrefused haloof h
    obtain ⟨notices, outbox, rfl, -⟩ := htold.of_aloof haloof
    rw [heq]
    -- from the failure a new batch may be sent
    have hended := endRound_ended haloof hun fun _ => ⟨nofun, fun _ => .inr rfl⟩
    exact hended.mono fun s b hsb => ⟨⟨f, rfl⟩, hsb⟩

theorem showSaved_ended (h : g.Unrefused) (hempty : g.edits.isEmpty = true) :
    (g.showSaved acting).Ended Fits := by
  -- listeners that are told leave the edits alone
  have hfits {g' : Engine ω} (hun : g'.Unrefused) (hedits : g'.edits = g.edits)
      (hs : g'.status = .idle ∨ g'.status = .saved) : (g'.endRound acting).Ended Fits := by
    have hnone : g'.goesAround = true → Grounded g'.status g'.edits := by
      intro hagain
      have hsome : g'.edits.isEmpty = false := (goesAround_iff.1 hagain).2.2.1
      rw [hedits] at hsome
      exact absurd (hempty.symm.trans hsome) nofun
    refine (endRound_ended haloof hun hnone).mono ?_
    rintro _ _ ⟨rfl, rfl⟩
    exact fits_of_isEmpty (hedits ▸ hempty) hs
  rcases showSaved_cases acting g with ⟨-, g', htold, heq⟩ | ⟨-, g', htold, heq⟩
  · have hun : g'.Unrefused := htold.unrefused haloof h
    obtain ⟨notices, outbox, rfl, -⟩ := htold.of_aloof haloof
    rw [heq]
    exact hfits hun rfl (.inr rfl)
  · have hun : g'.Unrefused := htold.unrefused haloof h
    obtain ⟨notices, outbox, rfl, -⟩ := htold.of_aloof haloof
    rw [heq]
    exact hfits hun rfl (.inl rfl)

/-- What is left once a batch is confirmed was edited meanwhile, and the indicator shows it. -/
theorem confirm_ended (h : g.Unrefused) (howed : Owed sent g) {batch : Batch}
    (hbatch : g.flight.batch? = some batch) (rows : List Setting) (installed : Bool) :
    (g.confirm acting batch rows installed).Ended Fits := by
  have hdone : (g.confirmed batch rows installed).Unrefused := h
  rcases confirm_cases acting g batch rows installed with
    ⟨failure, hmismatch, -⟩ | ⟨hempty, heq⟩ | ⟨hsome, heq⟩
  · -- the batch under way was sent, and what was sent has its revisions
    have hknows := howed.ledger.knows batch (howed.ledger.flight batch hbatch)
    obtain ⟨dropped, hdropped⟩ := hknows.discardFlushed_ok
    exact absurd (hmismatch.symm.trans hdropped) nofun
  · rw [heq]
    exact showSaved_ended haloof hdone hempty
  · have hpending : g.status = .pending := howed.pending_of_left hbatch hsome
    rw [heq]
    refine (endRound_ended haloof hdone fun _ => ?_).mono ?_
    · refine ⟨?_, fun _ => .inl hpending⟩
      change g.status ≠ .saving
      simp [hpending]
    · rintro _ _ ⟨rfl, rfl⟩
      exact fits_of_edits hsome (.inl hpending)

theorem reloaded_ended (h : g.Unrefused) (howed : Owed sent g) (hopen : g.closed = false)
    {batch : Batch} {rows : List Setting} {load : Nat}
    (hflight : g.flight = .reloading batch rows load) {answer : Except Failure Categories}
    (hanswer : ∀ f, answer = .error f → f.isFetch = true) :
    (g.reloaded acting answer).Ended Fits := by
  have hload : Owed sent (g.withLoad load answer) := howed.of_eq rfl rfl rfl rfl rfl rfl rfl
  have hbatch : (g.withLoad load answer).flight.batch? = some batch := by
    change g.flight.batch? = some batch
    rw [hflight]
    rfl
  rw [reloaded_of_open hflight hopen hanswer]
  exact confirm_ended (g := g.withLoad load answer) haloof h hload hbatch rows _

/-- A turn of an open engine has nothing refused. -/
theorem turn_unrefused (h : g.Unrefused) (howed : Owed sent g) (hopen : g.closed = false)
    {t : Turn} (hready : t = .takeOff → g.flight = .waiting)
    (hforeseen : (Event.turn t : Event ω).Foreseen) : (g.turn acting t).Unrefused := by
  cases t with
  | quietOver =>
    change (quietOver _).Unrefused
    rcases quietOver_cases { g with quiet := g.quiet.cancel } with
      ⟨-, heq⟩ | ⟨-, -, heq⟩ | ⟨-, -, heq⟩
    · rwa [heq]
    · rwa [heq]
    · have hwaiting : Unrefused { g with quiet := g.quiet.cancel, flight := .waiting } := h
      rw [heq]
      exact hwaiting.emit nofun
  | shownOver =>
    change (shownOver acting _).Unrefused
    rcases shownOver_cases acting { g with shown := g.shown.cancel } with heq | ⟨-, -, htold⟩
    · rwa [heq]
    · exact htold.unrefused haloof h
  | takeOff =>
    have hground : Grounded g.status g.edits := howed.grounded (by rw [hready rfl]; rfl)
    exact (sendBatch_ended (g := { g with requested := false }) haloof h hground).unrefused
  | updated answer =>
    change (g.updated acting answer).Unrefused
    cases hflight : g.flight with
    | saving batch => exact (updated_ended haloof h howed hopen hflight answer).unrefused
    | none | waiting | reloading => simpa [updated, hflight] using h
  | reloaded answer =>
    change (g.reloaded acting answer).Unrefused
    cases hflight : g.flight with
    | reloading batch rows load =>
      have hanswer : ∀ f, answer = .error f → f.isFetch = true := by
        rintro f rfl
        exact hforeseen
      exact (reloaded_ended haloof h howed hopen hflight hanswer).unrefused
    | none | waiting | saving => simpa [reloaded, hflight] using h
  | loaded load answer =>
    rw [turn_loaded]
    exact h

end Ending

end Engine

end DeferredSave
