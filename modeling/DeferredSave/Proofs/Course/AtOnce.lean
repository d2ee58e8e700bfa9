import DeferredSave.Proofs.Course.Breaking
import DeferredSave.Proofs.Course.Landing
import DeferredSave.Proofs.Course.Round

/-!
# Saving at once

A call to save at once returns when there is nothing to wait for, or some time after the flight has
landed that was under way at the call or was asked for by it (`Course.Returns`). By then every edit
that it found in the buffer has been sent; and if nobody has called meanwhile, no flight is under
way and either nothing is left in the buffer or a failure is shown
(`Course.saving_at_once_covers`).

The first is what `Engine.Overdue` carries through the flight. For the second, what counts is that
the quiet period is stopped and that a flight whose batch does not hold all edits goes round
(`Engine.Hastened`).
-/

namespace DeferredSave

variable {ω : Type} {acting : Engine.Acting ω} {g g' : Engine ω} {sent : List Batch}
  {admitted : Engine ω → Call ω → Prop}

namespace Engine

/-! ## Edits beyond the batch -/

/-- Each edit beyond the batch that is under way is noted. -/
def Noted (g : Engine ω) : Prop :=
  g.Carries fun batch => g.edited = true ∨ ∀ e ∈ g.edits.edits, batch.Holds e

/-- After a round the batch that is under way, if any, holds all edits. -/
theorem Rounds.carries (h : Rounds g g') :
    g'.Carries fun batch => ∀ e ∈ g'.edits.edits, batch.Holds e := by
  intro batch hbatch
  obtain hnone | ⟨_, hsaving, hheld⟩ := h.flight
  · rw [hnone] at hbatch
    cases hbatch
  · rw [hsaving] at hbatch
    cases hbatch
    exact h.edits ▸ hheld

theorem Rounds.noted (h : Rounds g g') : g'.Noted := fun batch hbatch =>
  .inr (h.carries batch hbatch)

theorem noted_of_none (h : g.flight.batch? = none) : g.Noted := by
  intro batch hbatch
  cases h.symm.trans hbatch

theorem beyond_abiding (batch : Batch) : Abiding (fun _ _ => True) fun g : Engine ω =>
    g.edited = true ∨ ∀ e ∈ g.edits.edits, batch.Holds e where
  unspoken := ⟨fun _ _ _ h => h, fun _ _ h => h⟩
  edit := fun _ _ _ _ _ => .inl rfl
  quiet := fun _ h => h
  drop := fun {g} keys? _ h =>
    h.imp_right fun hheld e he => hheld e ((g.edits.discard_sublist keys?).1.subset he)
  rest := fun _ _ _ h => h
  close := fun h => h
  subscribe := fun _ _ h => h
  unsubscribe := fun _ h => h
  request := fun _ h => h
  launch := fun _ h => h
  load := fun h => h

section Noting

variable (haloof : Aloof acting)
include haloof

theorem Noted.call (h : g.Noted) (c : Call ω) : (g.call acting c).Noted := by
  intro batch hbatch
  have hkeeps := (beyond_abiding batch).keeps haloof.listening
  obtain hstays | ⟨-, hwaiting⟩ := call_flight haloof.listening g c
  · exact (beyond_abiding batch).call hkeeps trivial (h batch (hstays ▸ hbatch))
  · rw [hwaiting] at hbatch
    cases hbatch

theorem Noted.turn (h : g.Noted) (t : Turn) : (g.turn acting t).Noted := by
  cases t with
  | quietOver =>
    change (quietOver _).Noted
    rcases quietOver_cases { g with quiet := g.quiet.cancel } with
      ⟨-, heq⟩ | ⟨-, -, heq⟩ | ⟨-, -, heq⟩
    · rwa [heq]
    · rwa [heq]
    · exact heq ▸ noted_of_none rfl
  | shownOver =>
    change (shownOver acting _).Noted
    rcases shownOver_cases acting { g with shown := g.shown.cancel } with heq | ⟨-, -, htold⟩
    · rwa [heq]
    · obtain ⟨notices, outbox, heq, -⟩ := htold.of_aloof haloof
      rwa [heq]
  | takeOff => exact (sendBatch_rounds haloof _).noted
  | updated answer =>
    change (g.updated acting answer).Noted
    cases hflight : g.flight with
    | saving batch =>
      obtain hrounds | ⟨rows, -, heq⟩ := updated_rounds haloof hflight answer
      · exact hrounds.noted
      · rw [heq]
        rintro _ ⟨⟩
        exact h batch (by rw [hflight]; rfl)
    | none | waiting | reloading => simpa [updated, hflight] using h
  | reloaded answer =>
    change (g.reloaded acting answer).Noted
    cases hflight : g.flight with
    | reloading batch rows load =>
      obtain ⟨edits, hrounds⟩ := reloaded_rounds haloof hflight answer
      exact hrounds.noted
    | none | waiting | saving => simpa [reloaded, hflight] using h
  | loaded load answer =>
    rw [turn_loaded]
    exact h

end Noting

/-! ## Nobody calls again -/

/-- What a call to save at once leaves behind, and what stays as long as nobody calls again: the
quiet period is stopped, a flight goes round unless its batch holds all edits, and when there is no
flight any more nothing is left or a failure is shown. -/
structure Hastened (g : Engine ω) : Prop where
  quiet : g.quiet.armed = false
  aloft : g.Carries fun batch => g.requested = true ∨ ∀ e ∈ g.edits.edits, batch.Holds e
  landed : g.flight = .none → g.edits.isEmpty = true ∨ g.status = .error

theorem carries_of_not_flying {Q : Batch → Prop} (h : g.flying = false) : g.Carries Q := by
  intro batch hbatch
  cases h.symm.trans (flying_of_batch hbatch)

theorem flushNow_hastened (hopen : g.closed = false) : g.flushNow.1.Hastened := by
  rcases flushNow_cases g with
    ⟨hclosed, -⟩ | ⟨-, hflying, heq⟩ | ⟨-, hflying, hempty, heq⟩ | ⟨-, -, -, heq⟩
  · cases hclosed.symm.trans hopen
  · rw [heq]
    refine ⟨rfl, fun _ _ => .inl rfl, fun hnone => ?_⟩
    have hnone : g.flight = .none := hnone
    simp [flying, hnone] at hflying
  · rw [heq]
    exact ⟨rfl, carries_of_not_flying hflying, fun _ => .inl hempty⟩
  · rw [heq]
    exact ⟨rfl, (fun _ h => by cases h), (fun h => by cases h)⟩

/-- Nothing else matters than the quiet period, the flight with its request, the edits and the
indicator. -/
theorem Hastened.of_eq (h : g.Hastened) (hquiet : g'.quiet = g.quiet)
    (hflight : g'.flight = g.flight) (hrequested : g'.requested = g.requested)
    (hedits : g'.edits = g.edits) (hstatus : g'.status = g.status) : g'.Hastened where
  quiet := hquiet ▸ h.quiet
  aloft := by
    unfold Carries
    rw [hflight, hrequested, hedits]
    exact h.aloft
  landed := by
    rw [hflight, hedits, hstatus]
    exact h.landed

theorem Rounds.hastened (h : Rounds g g') (hquiet : g.quiet.armed = false)
    (hlanded : g'.flight = .none → g'.edits.isEmpty = true ∨ g'.status = .error) :
    g'.Hastened :=
  ⟨h.quiet ▸ hquiet, fun batch hbatch => .inr (h.carries batch hbatch), hlanded⟩

/-- A flight that has to go round sends its edits if the indicator allows it. -/
theorem endRound_of_goesAround (acting : Acting ω) (hagain : g.goesAround = true)
    (hallows : g.status.canBecome .saving = true) :
    (g.endRound acting).flight = .saving g.edits.snapshot := by
  have hsome : g.edits.isEmpty = false := (goesAround_iff.1 hagain).2.2.1
  rcases endRound_cases acting g with ⟨-, heq⟩ | ⟨hstays, -⟩
  · rw [heq]
    rcases sendBatch_cases acting { g with requested := false } with
      ⟨hempty, -⟩ | ⟨-, -, g', -, hsent⟩ | ⟨hrefused, -⟩
    · cases hempty.symm.trans hsome
    · rw [hsent]
      rfl
    · rw [if_neg (by simp [hsome])] at hrefused
      cases hallows.symm.trans hrefused
  · cases hagain.symm.trans hstays

/-- A flight that goes round for what was edited beyond its batch lands only when nothing is
left. -/
theorem confirm_empties (haloof : Aloof acting) (howed : Owed sent g) (hopen : g.closed = false)
    {batch : Batch} (hbatch : g.flight.batch? = some batch)
    (hround : g.requested = true ∨ ∀ e ∈ g.edits.edits, batch.Holds e)
    (hnoted : g.edited = true ∨ ∀ e ∈ g.edits.edits, batch.Holds e) (rows : List Setting)
    (installed : Bool) (hlanded : (g.confirm acting batch rows installed).flight = .none) :
    (g.confirm acting batch rows installed).edits.isEmpty = true := by
  have hknows : g.edits.Knows batch := howed.ledger.knows batch (howed.ledger.flight batch hbatch)
  rcases confirm_cases acting g batch rows installed with
    ⟨failure, hmismatch, -⟩ | ⟨hempty, -⟩ | ⟨hsome, heq⟩
  · obtain ⟨dropped, hdropped⟩ := hknows.discardFlushed_ok
    cases hmismatch.symm.trans hdropped
  · rw [(confirm_rounds haloof g batch rows installed).edits]
    exact hempty
  · -- an edit that is left is not in the batch, so it is noted and the flight goes round for it
    obtain ⟨e, he⟩ := List.exists_mem_of_ne_nil _ (List.isEmpty_eq_false_iff.1 hsome)
    obtain ⟨he, hnot⟩ := (EditBuffer.mem_discardFlushed howed.ledger.orderly hknows).1 he
    have hrequested : g.requested = true := hround.resolve_right fun hheld => hnot (hheld e he)
    have hedited : g.edited = true := hnoted.resolve_right fun hheld => hnot (hheld e he)
    have hpending : g.status = .pending := howed.pending_of_left hbatch hsome
    have hagain : (g.confirmed batch rows installed).goesAround = true :=
      goesAround_iff.2 ⟨hrequested, hedited, hsome, hopen⟩
    have hallows : (g.confirmed batch rows installed).status.canBecome .saving = true := by
      change g.status.canBecome .saving = true
      rw [hpending]
      rfl
    rw [heq, endRound_of_goesAround acting hagain hallows] at hlanded
    cases hlanded

end Engine

/-- The event is no call that makes or drops edits, or saves at once. -/
def Event.Attends : Event ω → Prop
  | .call (.change ..) | .call (.discard _) | .call .flushNow => False
  | _ => True

namespace Engine

section Hastening

variable (haloof : Aloof acting) (howed : Owed sent g) (hopen : g.closed = false)
include haloof howed hopen

theorem Hastened.updated (h : g.Hastened) (hsaid : g.Unrefused) {batch : Batch}
    (hflight : g.flight = .saving batch) (answer : Except Failure (List Setting)) :
    (g.updated acting answer).Hastened := by
  obtain hrounds | ⟨rows, -, heq⟩ := updated_rounds haloof hflight answer
  · have hended := updated_ended haloof hsaid howed hopen hflight answer
    exact hrounds.hastened h.quiet fun hnone => .inr (hended.rests hnone).2.1
  · rw [heq]
    refine ⟨h.quiet, ?_, nofun⟩
    rintro _ ⟨⟩
    exact h.aloft batch (by rw [hflight]; rfl)

theorem Hastened.reloaded (h : g.Hastened) (hnoted : g.Noted) {batch : Batch}
    {rows : List Setting} {load : Nat} (hflight : g.flight = .reloading batch rows load)
    {answer : Except Failure Categories} (hanswer : ∀ f, answer = .error f → f.isFetch = true) :
    (g.reloaded acting answer).Hastened := by
  have hload : Owed sent (g.withLoad load answer) := howed.of_eq rfl rfl rfl rfl rfl rfl rfl
  have hbatch : (g.withLoad load answer).flight.batch? = some batch := by
    change g.flight.batch? = some batch
    rw [hflight]
    rfl
  have hrounds := confirm_rounds haloof (g.withLoad load answer) batch rows
    (g.installs load answer)
  rw [reloaded_of_open hflight hopen hanswer]
  refine hrounds.hastened h.quiet fun hnone => .inl ?_
  exact confirm_empties haloof hload hopen hbatch (h.aloft batch hbatch) (hnoted batch hbatch) rows
    _ hnone

omit haloof howed in
theorem Hastened.call (h : g.Hastened) {c : Call ω} (hattends : (Event.call c).Attends)
    (hopen' : (g.call acting c).closed = false) : (g.call acting c).Hastened := by
  cases c with
  | change | discard | flushNow => exact hattends.elim
  | refresh =>
    change g.refresh.1.Hastened
    unfold refresh
    split <;> exact h.of_eq rfl rfl rfl rfl rfl
  | close =>
    change g.close.closed = false at hopen'
    simp [close, hopen] at hopen'
  | subscribe listener reply? => exact h.of_eq rfl rfl rfl rfl rfl
  | unsubscribe handle => exact h.of_eq rfl rfl rfl rfl (status_unsubscribe g handle)

theorem Hastened.turn (h : g.Hastened) (hsaid : g.Unrefused) (hnoted : g.Noted) {t : Turn}
    (hquiet : t ≠ .quietOver) (hready : t = .takeOff → g.flight = .waiting)
    (hforeseen : (Event.turn t : Event ω).Foreseen) : (g.turn acting t).Hastened := by
  cases t with
  | quietOver => exact (hquiet rfl).elim
  | shownOver =>
    change (Engine.shownOver acting _).Hastened
    rcases shownOver_cases acting { g with shown := g.shown.cancel } with heq | ⟨-, hsaved, htold⟩
    · rw [heq]
      exact h.of_eq rfl rfl rfl rfl rfl
    · obtain ⟨notices, outbox, heq, -⟩ := htold.of_aloof haloof
      have hstatus : g.status ≠ .error := by
        intro hs
        cases hs.symm.trans hsaved
      rw [heq]
      exact ⟨h.quiet, h.aloft, fun hnone => .inl ((h.landed hnone).resolve_right hstatus)⟩
  | takeOff =>
    have hground : Grounded g.status g.edits := howed.grounded (by rw [hready rfl]; rfl)
    have hended := sendBatch_ended (g := { g with requested := false }) haloof hsaid hground
    have hrounds := sendBatch_rounds haloof { g with requested := false }
    exact hrounds.hastened h.quiet fun hnone => .inl (hended.rests hnone).2.1
  | updated answer =>
    change (g.updated acting answer).Hastened
    cases hflight : g.flight with
    | saving batch => exact h.updated haloof howed hopen hsaid hflight answer
    | none | waiting | reloading => simpa [Engine.updated, hflight] using h
  | reloaded answer =>
    change (g.reloaded acting answer).Hastened
    cases hflight : g.flight with
    | reloading batch rows load =>
      have hanswer : ∀ f, answer = .error f → f.isFetch = true := by
        rintro f rfl
        exact hforeseen
      exact h.reloaded haloof howed hopen hnoted hflight hanswer
    | none | waiting | saving => simpa [Engine.reloaded, hflight] using h
  | loaded load answer =>
    rw [turn_loaded]
    exact h.of_eq rfl rfl rfl rfl rfl

end Hastening

end Engine

/-! ## In the course of events -/

namespace Course

theorem Reachable.noted {events : Course ω → Event ω → Prop} {c : Course ω}
    (h : c.Reachable events Aloof) : c.engine.Noted := by
  obtain ⟨metas, rules, quietPeriod, shownFor, hleads⟩ := h
  induction hleads with
  | refl => exact Engine.noted_of_none rfl
  | @step c acting ev _ haloof _ _ ih =>
    change (c.engine.after acting ev).Noted
    cases ev with
    | call call => exact ih.call haloof call
    | turn t => exact ih.turn haloof t
    | wait seconds => exact ih

/-- An engine without a flight stays so unless its quiet period ends or edits are to be saved at
once. -/
theorem landed_stays {c : Course ω} {ev : Event ω} (hlisten : Listening admitted acting)
    (hready : c.Ready ev) (hnone : c.engine.flight = .none) (hcall : ev ≠ .call .flushNow)
    (hquiet : ev ≠ .turn .quietOver) : (c.after acting ev).engine.flight = .none := by
  change (c.engine.after acting ev).flight = .none
  cases ev with
  | wait seconds => exact hnone
  | call call =>
    change (c.engine.call acting call).flight = .none
    cases hwaits : call.waits with
    | false => exact (Engine.Beside.call (hlisten.beside _) (.refl _) hwaits).flight.trans hnone
    | true =>
      cases call with
      | flushNow => exact (hcall rfl).elim
      | refresh =>
        change c.engine.refresh.1.flight = .none
        unfold Engine.refresh
        split <;> exact hnone
      | change | discard | close | subscribe | unsubscribe => cases hwaits
  | turn t =>
    cases t with
    | quietOver => exact (hquiet rfl).elim
    | shownOver =>
      change (Engine.shownOver acting _).flight = .none
      rcases Engine.shownOver_cases acting { c.engine with shown := c.engine.shown.cancel } with
        heq | ⟨-, -, htold⟩
      · rwa [heq]
      · exact (htold.flight hlisten).trans hnone
    -- without a flight there is nothing that the store could answer to it
    | takeOff =>
      have hwaiting : c.engine.flight = .waiting := hready
      cases hnone.symm.trans hwaiting
    | updated answer =>
      obtain ⟨batch, hflight⟩ := hready
      cases hnone.symm.trans hflight
    | reloaded answer =>
      obtain ⟨batch, rows, load, hflight⟩ := hready
      cases hnone.symm.trans hflight
    | loaded load answer =>
      change (c.engine.turn acting (.loaded load answer)).flight = .none
      rw [Engine.turn_loaded]
      exact hnone

/-- As long as nobody calls again, what a call to save at once has left behind stays. -/
theorem Leads.hastened {c c' : Course ω}
    (h : c.Leads (fun _ ev => ev.Foreseen ∧ ev.Attends) Aloof c')
    (hc : c.Reachable (fun _ => Event.Foreseen) Aloof) (hopen : c'.engine.closed = false)
    (hhastened : c.engine.Hastened) : c'.engine.Hastened := by
  induction h with
  | refl => exact hhastened
  | @step c' acting ev hsteps haloof hready hev ih =>
    have hbefore : c'.engine.closed = false := Engine.open_of_after haloof.listening hopen
    have hreach : c'.Reachable (fun _ => Event.Foreseen) Aloof :=
      hc.trans (hsteps.mono (fun _ _ => And.left) fun _ => id)
    have hafter : (c'.engine.after acting ev).Hastened := by
      cases ev with
      | call call => exact (ih hbefore).call hbefore hev.2 hopen
      | wait seconds => exact (ih hbefore).of_eq rfl rfl rfl rfl rfl
      | turn t =>
        have hsound : c'.Sound := (hreach.mono (fun _ _ => id) fun _ => Aloof.listening).sound
        refine (ih hbefore).turn haloof (hreach.owed hbefore) hbefore hsound.unrefused hreach.noted
          ?_ ?_ hev.1
        · -- the quiet period is stopped, so it does not come to its end
          rintro rfl
          cases (ih hbefore).quiet.symm.trans (Timer.armed_of_due? hready)
        · rintro rfl
          exact hready
    exact hafter.of_eq rfl rfl rfl rfl rfl

/-- A call to save at once, made in the course `c`, returns in the course `c'` in the ordinary way:
on the spot if there is nothing to wait for, else some time after the flight has landed that was
under way after the call. -/
inductive Returns (events : Course ω → Event ω → Prop) (listeners : Engine.Acting ω → Prop)
    (c : Course ω) : Course ω → Prop where
  | onTheSpot {acting : Engine.Acting ω} :
      listeners acting → c.engine.flushNow.2 = .ok false →
      Returns events listeners c (c.after acting (.call .flushNow))
  | landed {acting acting' : Engine.Acting ω} {c₁ c' : Course ω} {ev : Event ω} :
      listeners acting → c.engine.flushNow.2 = .ok true →
      (c.after acting (.call .flushNow)).Leads
        (fun c ev => c.engine.flying = true ∧ events c ev) listeners c₁ →
      c₁.engine.flying = true → listeners acting' → c₁.Ready ev → events c₁ ev →
      (c₁.after acting' ev).engine.flying = false →
      .landed none ∈ (c₁.engine.after acting' ev).outbox →
      (c₁.after acting' ev).Leads events listeners c' →
      Returns events listeners c c'

theorem Leads.sent_subset {events : Course ω → Event ω → Prop} {listeners : Engine.Acting ω → Prop}
    {c c' : Course ω} (h : c.Leads events listeners c') {batch : Batch} (hbatch : batch ∈ c.sent) :
    batch ∈ c'.sent := by
  induction h with
  | refl => exact hbatch
  | step _ _ _ _ ih =>
    rw [sent_after]
    exact List.mem_append_left _ ih

/-- An engine that is open was open before. -/
theorem Leads.open_before {events : Course ω → Event ω → Prop} {c c' : Course ω}
    (h : c.Leads events Aloof c') (hopen : c'.engine.closed = false) : c.engine.closed = false :=
  (h.mono (fun _ _ => id) fun _ => Aloof.listening).was_open hopen

theorem flushNow_ok_iff {g : Engine ω} {flies : Bool} :
    g.flushNow.2 = .ok flies ↔
      g.closed = false ∧ (g.flying || !g.edits.isEmpty) = flies := by
  unfold Engine.flushNow
  cases g.closed <;> cases hflying : g.flying <;> cases hempty : g.edits.isEmpty <;>
    simp [Engine.flying, hempty] at hflying ⊢ <;> simp [hflying]

/-- The call itself, as the first event of what follows from it. -/
theorem leads_flushNow {events : Course ω → Event ω → Prop} {c : Course ω} (haloof : Aloof acting)
    (hev : events c (.call .flushNow)) :
    c.Leads events Aloof (c.after acting (.call .flushNow)) :=
  Leads.refl.step haloof trivial hev

theorem Returns.covers {c c' : Course ω} {e : Edit}
    (h : c.Returns (fun c ev => ev.Foreseen ∧ (e ∈ c.engine.edits.edits → c.Retains e.key ev))
      Aloof c')
    (hc : c.Reachable (fun _ => Event.Foreseen) Aloof) (he : e ∈ c.engine.edits.edits)
    (hopen : c'.engine.closed = false) : ∃ batch ∈ c'.sent, batch.Holds e := by
  cases h with
  | onTheSpot _ hnothing =>
    obtain ⟨-, hidle⟩ := flushNow_ok_iff.1 hnothing
    simp [Engine.isEmpty_of_mem he] at hidle
  | @landed acting acting' c₁ _ ev haloof hflies hbefore hflying haloof' hready hev hdown _
      hafter =>
    have hflushed : (c.after acting (.call .flushNow)).Reachable (fun _ _ => True)
        (Listening fun _ _ => True) :=
      (hc.trans (leads_flushNow haloof trivial)).mono (fun _ _ _ => trivial)
        fun _ => Aloof.listening
    have hhastens : (Event.call .flushNow : Event ω).Hastens := trivial
    have hover : (c.after acting (.call .flushNow)).engine.Overdue e :=
      Engine.overdue_of_hastens hhastens he (flushNow_ok_iff.1 hflies).1
    have hleads := (hbefore.mono (fun _ _ => And.right) fun _ => id).step haloof' hready hev
    have hfollows :=
      (hleads.mono (fun _ _ => And.symm) fun _ => .aloof).follows_while hflushed hover
    obtain hclosed | ⟨batch, hbatch, hholds⟩ | ⟨-, hwaiting | ⟨hflying', -⟩⟩ := hfollows
    · cases (hafter.open_before hopen).symm.trans hclosed
    · exact ⟨batch, hafter.sent_subset hbatch, hholds⟩
    · simp [Engine.flying, hwaiting] at hdown
    · cases hdown.symm.trans hflying'

/-- As long as nobody calls again, an engine without a flight stays so. -/
theorem Leads.landed {c c' : Course ω}
    (h : c.Leads (fun _ ev => ev.Foreseen ∧ ev.Attends) Aloof c')
    (hc : c.Reachable (fun _ => Event.Foreseen) Aloof) (hopen : c'.engine.closed = false)
    (hhastened : c.engine.Hastened) (hnone : c.engine.flight = .none) :
    c'.engine.flight = .none := by
  induction h with
  | refl => exact hnone
  | @step c' acting ev hsteps haloof hready hev ih =>
    have hbefore : c'.engine.closed = false := Engine.open_of_after haloof.listening hopen
    refine landed_stays haloof.listening hready (ih hbefore) ?_ ?_
    · rintro rfl
      exact hev.2
    · rintro rfl
      have hquiet := (hsteps.hastened hc hbefore hhastened).quiet
      cases hquiet.symm.trans (Timer.armed_of_due? hready)

theorem Returns.rests {c c' : Course ω}
    (h : c.Returns (fun _ ev => ev.Foreseen ∧ ev.Attends) Aloof c')
    (hc : c.Reachable (fun _ => Event.Foreseen) Aloof) (hopen : c'.engine.closed = false) :
    c'.engine.flight = .none ∧
      (c'.engine.edits.isEmpty = true ∨ c'.engine.status = .error) := by
  have hhastened {acting : Engine.Acting ω} {flies : Bool} (hok : c.engine.flushNow.2 = .ok flies) :
      (c.after acting (.call .flushNow)).engine.Hastened :=
    (Engine.flushNow_hastened (flushNow_ok_iff.1 hok).1).of_eq rfl rfl rfl rfl rfl
  cases h with
  | onTheSpot _ hnothing =>
    obtain ⟨hopen, hidle⟩ := flushNow_ok_iff.1 hnothing
    have hnone : c.engine.flushNow.1.flight = .none := by
      have hdown : c.engine.flying = false := (Bool.or_eq_false_iff.1 hidle).1
      rcases Engine.flushNow_cases c.engine with
        ⟨hclosed, -⟩ | ⟨-, hflying, -⟩ | ⟨-, -, -, heq⟩ | ⟨-, -, hsome, -⟩
      · cases hclosed.symm.trans hopen
      · cases hflying.symm.trans hdown
      · rw [heq]
        exact Engine.flight_of_not_flying hdown
      · simp [hsome] at hidle
    exact ⟨hnone, (hhastened hnothing).landed hnone⟩
  | @landed acting acting' c₁ _ ev haloof hflies hbefore hflying haloof' hready hev hdown _
      hafter =>
    have hflushed : (c.after acting (.call .flushNow)).Reachable (fun _ => Event.Foreseen) Aloof :=
      hc.trans (leads_flushNow haloof trivial)
    have hleads := (hbefore.mono (fun _ _ => And.right) fun _ => id).step haloof' hready hev
    have hopen' := hafter.open_before hopen
    -- the flight has landed, and from then on there is none
    have hlanded := hleads.hastened hflushed hopen' (hhastened hflies)
    have hreach := hflushed.trans (hleads.mono (fun _ _ => And.left) fun _ => id)
    have hnone := hafter.landed hreach hopen hlanded (Engine.flight_of_not_flying hdown)
    exact ⟨hnone, (hafter.hastened hreach hopen hlanded).landed hnone⟩

/-- Saving at once covers what was edited before. When the call returns, each edit that it found in
the buffer has been sent, unless it was replaced or dropped meanwhile. And if meanwhile nobody has
made or dropped edits or called again, there is no flight any more, and nothing is left in the
buffer or a failure is shown. -/
theorem saving_at_once_covers {c : Course ω} (hc : c.Reachable (fun _ => Event.Foreseen) Aloof) :
    (∀ e ∈ c.engine.edits.edits, ∀ c',
      c.Returns (fun c ev => ev.Foreseen ∧ (e ∈ c.engine.edits.edits → c.Retains e.key ev)) Aloof
        c' →
      c'.engine.closed = false → ∃ batch ∈ c'.sent, batch.Holds e) ∧
    ∀ c', c.Returns (fun _ ev => ev.Foreseen ∧ ev.Attends) Aloof c' → c'.engine.closed = false →
      c'.engine.flight = .none ∧ (c'.engine.edits.isEmpty = true ∨ c'.engine.status = .error) :=
  ⟨fun _ he _ hreturns hopen => hreturns.covers hc he hopen,
    fun _ hreturns hopen => hreturns.rests hc hopen⟩

/-- An update is outstanding, and a further edit was made meanwhile. -/
def editedWhileSaving : List (Event Unit) :=
  [.call (.change "key" "value"), .call .flushNow, .turn .takeOff, .call (.change "other" "late")]

/-- The update fails, the flight goes round for both edits, and these are stored. -/
def failedThenStored : List (Event Unit) :=
  [.turn (.updated (.error (.plain .runtime none))), .turn (.updated (.ok []))]

/-- A call to save at once while an update is outstanding that fails: it returns when the further
edit has been sent, with nothing left. -/
theorem late_edit_is_covered :
    let c : Course Unit := (start [] [] 1 1).run .silent editedWhileSaving
    let c₁ := (c.after .silent (.call .flushNow)).run .silent failedThenStored
    let last : Event Unit := .turn (.reloaded (.error (.plain .fetch none)))
    let c' := c₁.after .silent last
    (∃ batch ∈ c'.sent, batch.Holds ⟨"other", "late", 2⟩) ∧ c'.engine.flight = .none ∧
      (c'.engine.edits.isEmpty = true ∨ c'.engine.status = .error) := by
  intro c c₁ last c'
  have hc : c.Reachable (fun _ => Event.Foreseen) Aloof := by
    refine ⟨[], [], 1, 1, leads_run aloof_silent (by decide) ?_⟩
    intro _ ev hev
    simp only [editedWhileSaving, List.mem_cons, List.not_mem_nil, or_false] at hev
    obtain rfl | rfl | rfl | rfl := hev <;> trivial
  -- nobody calls while the call waits, so in particular nobody touches the edit
  have hreturns {events : Course Unit → Event Unit → Prop}
      (hevents : ∀ c t, (Event.turn t : Event Unit).Foreseen → events c (.turn t)) :
      c.Returns events Aloof c' := by
    have hmeets : (c.after .silent (.call .flushNow)).Meets
        (fun c ev => c.engine.flying = true ∧ events c ev) .silent failedThenStored :=
      ⟨⟨rfl, hevents _ _ trivial⟩, ⟨rfl, hevents _ _ trivial⟩, trivial⟩
    have hready : c₁.Ready last := ⟨_, _, _, rfl⟩
    have hforeseen : last.Foreseen := rfl
    have hlanded : .landed none ∈ (c₁.engine.after .silent last).outbox := by decide
    have hflies : c.engine.flushNow.2 = .ok true := rfl
    have hflying : c₁.engine.flying = true := by decide
    have hdown : c'.engine.flying = false := by decide
    exact .landed aloof_silent hflies (hmeets.leads aloof_silent (by decide)) hflying aloof_silent
      hready (hevents _ _ hforeseen) hdown hlanded .refl
  have hedit : ⟨"other", "late", 2⟩ ∈ c.engine.edits.edits := by decide
  have hopen : c'.engine.closed = false := by decide
  obtain ⟨hcovers, hrests⟩ := saving_at_once_covers hc
  refine ⟨hcovers _ hedit c' ?_ hopen, hrests c' ?_ hopen⟩
  · exact hreturns fun _ _ hforeseen => ⟨hforeseen, fun _ => trivial⟩
  · exact hreturns fun _ _ hforeseen => ⟨hforeseen, trivial⟩

end Course

end DeferredSave
