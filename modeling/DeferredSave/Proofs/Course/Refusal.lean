import DeferredSave.Proofs.Course.Closing
import DeferredSave.Proofs.Course.Landing

/-!
# The indicator refuses nothing

In each status the indicator allows only some events. As long as listeners leave the engine alone
and loading the catalog fails in no unforeseen way, an engine never gives it another one, whether it
is open or closed (`Course.no_event_refused`). Edits are always allowed, and dropping them asks
first. So it is for the flight to see to: where it takes its batch the status is grounded, and where
it takes an answer the status shows a save or edits beyond it.
-/

namespace DeferredSave

variable {ω : Type} {acting : Engine.Acting ω} {g : Engine ω} {sent : List Batch}

theorem Grounded.of_sublist {s : Status} {b b' : EditBuffer} (h : Grounded s b)
    (hsub : b'.edits.Sublist b.edits) : Grounded s b' where
  status := h.status
  shows := by
    intro hsome
    apply h.shows
    apply Bool.of_not_eq_true
    intro hempty
    have hnil : b'.edits = [] := List.sublist_nil.1 (List.isEmpty_iff.1 hempty ▸ hsub)
    simp [EditBuffer.isEmpty, hnil] at hsome

namespace Engine

/-! ## What is reported -/

theorem snd_change (acting : Acting ω) (g : Engine ω) (key value : String) :
    (g.change acting key value).2 = if g.closed then .error .engineClosed else .ok () := by
  unfold change
  split
  · rfl
  · obtain ⟨g', -, hfire⟩ :=
      fire_of_canBecome (g := g.edit key value) (e := .edit) acting (canBecome_pending _)
    unfold edit at hfire
    dsimp only
    rw [hfire]

/-- Dropping edits fails only as it does for the buffer. -/
theorem snd_discard (acting : Acting ω) (g : Engine ω) (keys? : Option (List String)) :
    (g.discard acting keys?).2 = (g.edits.discard keys?).2.mapError .missingKey := by
  unfold discard
  rcases g.edits.discard keys? with ⟨edits, missing | dropped⟩
  · rfl
  · dsimp only
    split
    · rfl
    · split
      · rfl
      · rename_i hshows
        simp only [Bool.or_eq_true, Bool.not_eq_true', not_or, Bool.not_eq_false] at hshows
        have hedits : g.showsEdits = true := hshows.2
        obtain ⟨g', -, hfire⟩ :=
          fire_of_canBecome (g := { g with edits, quiet := g.quiet.cancel }) (e := .idle) acting
            (canBecome_idle hedits)
        rw [hfire]
        rfl

/-- While an event is handled, the indicator is given an event that it does not allow, and this is
reported: by a call to its caller, and by the end of the time for which a save is shown to nobody
but the loop. -/
def Reports (acting : Acting ω) (g : Engine ω) (t : InvalidTransition) : Event ω → Prop
  | .call (.change key value) => (g.change acting key value).2 = .error (.transition t)
  | .call (.discard keys?) => (g.discard acting keys?).2 = .error (.transition t)
  | .call .flushNow => g.flushNow.2 = .error (.transition t)
  | .turn .shownOver => g.closed = false ∧ g.status = .saved ∧
      (fire acting { g with shown := g.shown.cancel } .idle).2 = .error t
  | _ => False

/-- While an event is handled, the indicator is given an event that it does not allow: this is
reported, or a flight breaks off with it. -/
def Refused (acting : Acting ω) (g : Engine ω) (t : InvalidTransition) (ev : Event ω) : Prop :=
  g.Reports acting t ev ∨ .landed (some (.transition t)) ∈ (g.after acting ev).outbox

/-- Whoever calls the engine is never told of a refused event. -/
theorem not_reports (acting : Acting ω) (g : Engine ω) (t : InvalidTransition) (ev : Event ω) :
    ¬ g.Reports acting t ev := by
  cases ev with
  | wait seconds => exact id
  | call c =>
    cases c with
    | change key value =>
      change (g.change acting key value).2 ≠ _
      rw [snd_change]
      split <;> nofun
    | discard keys? =>
      change (g.discard acting keys?).2 ≠ _
      rw [snd_discard]
      cases (g.edits.discard keys?).2 <;> nofun
    | flushNow =>
      change g.flushNow.2 ≠ _
      unfold flushNow
      dsimp only
      split
      · nofun
      · split
        · nofun
        · split <;> nofun
    | refresh | close | subscribe | unsubscribe => exact id
  | turn turn =>
    cases turn with
    | shownOver =>
      rintro ⟨-, hsaved, hrefused⟩
      obtain ⟨g', -, hfire⟩ :=
        fire_of_canBecome (g := { g with shown := g.shown.cancel }) (e := .idle) acting
          (by change g.status.canBecome .idle = true; rw [hsaved]; rfl)
      rw [hfire] at hrefused
      cases hrefused
    | quietOver | takeOff | updated | reloaded | loaded => exact id

/-! ## Flights of a closed engine -/

/-- When a flight waits to take off, the status is grounded. -/
def Poised (g : Engine ω) : Prop := g.flight = .waiting → Grounded g.status g.edits

theorem poised_of_rounded (h : g.Rounded) : g.Poised := by
  intro hwaiting
  obtain hr | ⟨_, hr⟩ := h <;> exact absurd (hr.symm.trans hwaiting) nofun

theorem Poised.call (h : g.Poised) (haloof : Aloof acting)
    (howed : g.closed = false → Owed sent g) (c : Call ω) : (g.call acting c).Poised := by
  cases c with
  | change key value =>
    change (g.change acting key value).1.Poised
    cases hc : g.closed with
    | true => rwa [change_of_closed hc]
    | false =>
      obtain ⟨g', htold, heq⟩ := change_of_open acting hc key value
      obtain ⟨notices, outbox, rfl, -⟩ := htold.of_aloof haloof
      rw [heq]
      exact fun _ => ⟨nofun, fun _ => .inl rfl⟩
  | discard keys? =>
    change (g.discard acting keys?).1.Poised
    have hsub := (g.edits.discard_sublist keys?).1
    rcases discard_cases acting g keys? with heq | ⟨-, heq | ⟨hflying, -, g', htold, heq⟩⟩
    · rw [heq]
      exact fun hwaiting => (h hwaiting).of_sublist hsub
    · rw [heq]
      exact fun hwaiting => (h hwaiting).of_sublist hsub
    · obtain ⟨notices, outbox, rfl, -⟩ := htold.of_aloof haloof
      rw [heq]
      intro hwaiting
      have hwaiting : g.flight = .waiting := hwaiting
      simp [flying, hwaiting] at hflying
  | flushNow =>
    change g.flushNow.1.Poised
    rcases flushNow_cases g with
      ⟨-, heq⟩ | ⟨-, -, heq⟩ | ⟨-, -, -, heq⟩ | ⟨hopen, hflying, -, heq⟩
    · rwa [heq]
    · rwa [heq]
    · rwa [heq]
    · -- a flight that is asked for is one of an open engine, which had none
      have hnone : g.flight = .none := by simpa [flying] using hflying
      rw [heq]
      exact fun _ => (howed hopen).grounded (by rw [hnone]; rfl)
  | refresh =>
    change g.refresh.1.Poised
    unfold refresh
    split <;> exact h
  | close =>
    change g.close.Poised
    unfold close
    split <;> exact h
  | subscribe listener reply? => exact h
  | unsubscribe handle =>
    intro hwaiting
    change Grounded (g.unsubscribe handle).status g.edits
    rw [status_unsubscribe]
    exact h hwaiting

theorem Poised.turn (h : g.Poised) (haloof : Aloof acting)
    (howed : g.closed = false → Owed sent g) (t : Turn) : (g.turn acting t).Poised := by
  cases t with
  | quietOver =>
    change (quietOver _).Poised
    rcases quietOver_cases { g with quiet := g.quiet.cancel } with
      ⟨-, heq⟩ | ⟨-, -, heq⟩ | ⟨hopen, hflying, heq⟩
    · rwa [heq]
    · rwa [heq]
    · have hnone : g.flight = .none := by simpa [flying] using hflying
      rw [heq]
      exact fun _ => (howed hopen).grounded (by rw [hnone]; rfl)
  | shownOver =>
    change (shownOver acting _).Poised
    rcases shownOver_cases acting { g with shown := g.shown.cancel } with
      heq | ⟨-, hsaved, htold⟩
    · rwa [heq]
    · obtain ⟨notices, outbox, heq, -⟩ := htold.of_aloof haloof
      have hstatus : g.status = .saved := hsaved
      rw [heq]
      intro hwaiting
      -- a saved status shows no edits, so there are none
      have hground : Grounded g.status g.edits := h hwaiting
      have hempty : g.edits.isEmpty = true := by
        apply Bool.of_not_eq_false
        intro hsome
        obtain hs | hs := hground.shows hsome <;> cases hstatus.symm.trans hs
      exact .of_isEmpty Status.noConfusion hempty
  | takeOff => exact poised_of_rounded (sendBatch_rounded acting _)
  | updated answer =>
    change (g.updated acting answer).Poised
    cases hflight : g.flight with
    | saving batch =>
      rcases updated_cases acting hflight answer with
        ⟨-, heq⟩ | ⟨-, rows, -, heq⟩ | ⟨-, f, -, ⟨-, failure?, heq⟩ | ⟨g', -, heq⟩⟩
      · exact heq ▸ poised_of_rounded (endRound_rounded acting g)
      · rw [heq]
        intro hwaiting
        cases hwaiting
      · exact heq ▸ poised_of_rounded (rounded_land g failure?)
      · exact heq ▸ poised_of_rounded (endRound_rounded acting g')
    | none | waiting | reloading => simpa [updated, hflight] using h
  | reloaded answer =>
    change (g.reloaded acting answer).Poised
    cases hflight : g.flight with
    | reloading batch rows load =>
      exact poised_of_rounded (reloaded_rounded acting hflight answer)
    | none | waiting | saving => simpa [reloaded, hflight] using h
  | loaded load answer =>
    rw [turn_loaded]
    exact h

/-- A closed engine starts no batch but that of a flight which waits to take off. -/
theorem closed_turn_unrefused (haloof : Aloof acting) (h : g.Unrefused) (hclosed : g.closed = true)
    (hpoised : g.Poised) {t : Turn} (hready : t = .takeOff → g.flight = .waiting)
    (hforeseen : (Event.turn t : Event ω).Foreseen) : (g.turn acting t).Unrefused := by
  -- a closed engine does not go round
  have hround {g' : Engine ω} (hun : g'.Unrefused) (hclosed : g'.closed = true) :
      (g'.endRound acting).Unrefused := by
    refine (endRound_ended haloof hun fun hagain => ?_).unrefused
    rw [goesAround_of_closed hclosed] at hagain
    cases hagain
  cases t with
  | quietOver =>
    change (quietOver _).Unrefused
    rcases quietOver_cases { g with quiet := g.quiet.cancel } with
      ⟨-, heq⟩ | ⟨hopen, -⟩ | ⟨hopen, -⟩
    · rwa [heq]
    · exact absurd (hclosed.symm.trans hopen) nofun
    · exact absurd (hclosed.symm.trans hopen) nofun
  | shownOver =>
    change (shownOver acting _).Unrefused
    rcases shownOver_cases acting { g with shown := g.shown.cancel } with heq | ⟨hopen, -⟩
    · rwa [heq]
    · exact absurd (hclosed.symm.trans hopen) nofun
  | takeOff =>
    have hground : Grounded g.status g.edits := hpoised (hready rfl)
    exact (sendBatch_ended (g := { g with requested := false }) haloof h hground).unrefused
  | updated answer =>
    change (g.updated acting answer).Unrefused
    cases hflight : g.flight with
    | saving batch =>
      rcases updated_cases acting hflight answer with ⟨-, heq⟩ | ⟨hopen, -⟩ | ⟨hopen, -⟩
      · exact heq ▸ hround h hclosed
      · exact absurd (hclosed.symm.trans hopen) nofun
      · exact absurd (hclosed.symm.trans hopen) nofun
    | none | waiting | reloading => simpa [updated, hflight] using h
  | reloaded answer =>
    change (g.reloaded acting answer).Unrefused
    cases hflight : g.flight with
    | reloading batch rows load =>
      rcases reloaded_cases acting hflight answer with
        ⟨-, heq⟩ | ⟨f, rfl, hfetch, -⟩ | ⟨hopen, -⟩
      · have hload : (g.withLoad load answer).Unrefused := h
        exact heq ▸ hround hload hclosed
      · have hforeseen : f.isFetch = true := hforeseen
        exact absurd (hforeseen.symm.trans hfetch) nofun
      · exact absurd (hclosed.symm.trans hopen) nofun
    | none | waiting | saving => simpa [reloaded, hflight] using h
  | loaded load answer =>
    rw [turn_loaded]
    exact h

/-- No call lets a flight break off. -/
theorem unrefused_abiding : Abiding (fun _ _ => True) fun g : Engine ω => g.Unrefused where
  unspoken := unrefused_unspoken
  edit := fun _ _ _ _ h => h
  quiet := fun _ h => h
  drop := fun _ _ h => h
  rest := fun _ _ _ h => h
  close := fun h => h
  subscribe := fun _ _ h => h
  unsubscribe := fun _ h => h
  request := fun _ h => h
  launch := by
    intro g _ h
    have hwaiting : Unrefused { g with flight := .waiting } := h
    exact hwaiting.emit nofun
  load := fun h => h

theorem call_unrefused (haloof : Aloof acting) (h : g.Unrefused) (c : Call ω) :
    (g.call acting c).Unrefused :=
  unrefused_abiding.call (haloof.keeps unrefused_unspoken) trivial h

end Engine

/-! ## In the course of events -/

namespace Course

theorem Reachable.poised {c : Course ω} (h : c.Reachable (fun _ => Event.Foreseen) Aloof) :
    c.engine.Poised := by
  obtain ⟨metas, rules, quietPeriod, shownFor, hleads⟩ := h
  induction hleads with
  | refl => exact nofun
  | @step c acting ev hleads haloof hready hforeseen ih =>
    have howed : c.engine.closed = false → Owed c.sent c.engine :=
      Reachable.owed ⟨metas, rules, quietPeriod, shownFor, hleads⟩
    change (c.engine.after acting ev).Poised
    cases ev with
    | call call => exact ih.call haloof howed call
    | turn t => exact ih.turn haloof howed t
    | wait seconds => exact ih

/-- Whatever happens, the indicator is never given an event that it does not allow. -/
theorem no_event_refused {c : Course ω} {ev : Event ω}
    (hc : c.Reachable (fun _ => Event.Foreseen) Aloof) (haloof : Aloof acting)
    (hready : c.Ready ev) (hforeseen : ev.Foreseen) (t : InvalidTransition) :
    ¬ c.engine.Refused acting t ev := by
  have hsound : c.Sound := (hc.mono (fun _ _ => id) fun _ => Aloof.listening).sound
  have hsaid : c.engine.Unrefused := hsound.unrefused
  have hafter : (c.engine.after acting ev).Unrefused := by
    cases ev with
    | wait seconds => exact hsaid
    | call call => exact Engine.call_unrefused haloof hsaid call
    | turn turn =>
      have htakeOff : turn = .takeOff → c.engine.flight = .waiting := by
        rintro rfl
        exact hready
      cases hclosed : c.engine.closed with
      | true => exact Engine.closed_turn_unrefused haloof hsaid hclosed hc.poised htakeOff hforeseen
      | false =>
        exact Engine.turn_unrefused haloof hsaid (hc.owed hclosed) hclosed htakeOff hforeseen
  rintro (hreports | hbroken)
  · exact Engine.not_reports acting c.engine t ev hreports
  · exact hafter t hbroken

/-- A save is refused by the store while a newer edit waits to be saved. The failure is shown and
the flight goes round, and nothing of this is refused by the indicator. -/
theorem failed_save_goes_round_unrefused :
    let c : Course Unit := (start [] [] 1 1).run .silent
      [.call (.change "key" "value"), .call .flushNow, .turn .takeOff,
        .call (.change "key" "newer"), .call .flushNow]
    let refused : Event Unit := .turn (.updated (.error (.plain .save none)))
    c.engine.status = .pending ∧ (c.after .silent refused).engine.status = .saving ∧
      ¬ c.engine.Refused .silent ⟨.error, .saving⟩ refused := by
  intro c refused
  have hc : c.Reachable (fun _ => Event.Foreseen) Aloof := ⟨[], [], 1, 1,
    leads_run aloof_silent (by decide) (by
      intro _ ev hev
      simp only [List.mem_cons, List.not_mem_nil, or_false] at hev
      rcases hev with rfl | rfl | rfl | rfl | rfl <;> trivial)⟩
  have hready : c.Ready refused := ⟨_, rfl⟩
  exact ⟨rfl, rfl, no_event_refused hc aloof_silent hready trivial _⟩

end Course

end DeferredSave
