import DeferredSave.Proofs.Course.Ledger

/-!
# Which batches are new

Where edits are neither dropped nor saved at once, the engine notes exactly whether there is an edit
that no batch holds yet (`Paced`). A flight that goes round looks at that note, so what it sends
holds such an edit. A flight that takes off does not look: the quiet period of an edit may end when
the edit is in a batch already, and the flight then sends again what has failed
(`Course.batch_is_new_iff`).
-/

namespace DeferredSave

variable {ω : Type} {acting : Engine.Acting ω} {g g' : Engine ω} {sent : List Batch}
  {admitted : Engine ω → Call ω → Prop}

/-- The call neither drops edits nor saves at once. -/
def Call.Plain : Call ω → Prop
  | .discard _ | .flushNow => False
  | _ => True

/-- The event is no call that drops edits or saves at once. -/
def Event.Plain : Event ω → Prop
  | .call c => c.Plain
  | _ => True

/-- The engine notes whether there is an edit that no batch holds, and shows it. -/
structure Paced (sent : List Batch) (g : Engine ω) : Prop where
  ledger : Ledger sent g
  edited : g.edited = true ↔ ∃ e, g.Fresh sent e
  shows : g.edited = true → g.showsEdits = true

namespace Engine

/-- At most one batch is sent, and it holds an edit that was in none before. -/
def Advances (sent : List Batch) (g g' : Engine ω) : Prop :=
  g'.sends = g.sends ∨ ∃ batch, g'.sends = g.sends ++ [batch] ∧
    ∃ e, batch.Holds e ∧ ∀ earlier ∈ sent ++ g.sends, ¬ earlier.Holds e

theorem Advances.of_sends {g₁ : Engine ω} (h : Advances sent g₁ g') (hsends : g₁.sends = g.sends) :
    Advances sent g g' := by
  unfold Advances at h ⊢
  rwa [hsends] at h

theorem Told.sends {status : Status} (h : Told acting status g g')
    (hlisten : Listening admitted acting) : g'.sends = g.sends :=
  congrArg (List.filterMap StoreCall.batch?) (h.keeps (hlisten.beside g) (.refl g)).asks

/-- No call sends a batch by itself. -/
theorem call_sends (hlisten : Listening admitted acting) (g : Engine ω) (c : Call ω) :
    (g.call acting c).sends = g.sends := by
  cases hwaits : c.waits with
  | false =>
    have hbeside := Beside.call (hlisten.beside g) (.refl g) hwaits
    exact congrArg (List.filterMap StoreCall.batch?) hbeside.asks
  | true =>
    cases c with
    | flushNow =>
      change g.flushNow.1.sends = g.sends
      rcases flushNow_cases g with ⟨-, heq⟩ | ⟨-, -, heq⟩ | ⟨-, -, -, heq⟩ | ⟨-, -, -, heq⟩
      · rw [heq]
      · rw [heq]
        rfl
      · rw [heq]
        rfl
      · rw [heq]
        exact sends_launch _
    | refresh =>
      change g.refresh.1.sends = g.sends
      unfold refresh
      split <;> rfl
    | change | discard | close | subscribe | unsubscribe => cases hwaits

/-- A flight that sends a batch sends the edits of that moment. -/
theorem sendBatch_sends (hlisten : Listening admitted acting) (g : Engine ω) :
    (g.sendBatch acting).sends = g.sends ∨
      (g.sendBatch acting).sends = g.sends ++ [g.edits.snapshot] := by
  rcases sendBatch_cases acting g with
    ⟨-, -, g', htold, heq⟩ | ⟨-, -, g', htold, heq⟩ | ⟨-, failure?, heq⟩
  · rw [heq, sends_land]
    exact .inl (htold.sends hlisten)
  · rw [heq, sends_update]
    exact .inr (congrArg (· ++ [g.edits.snapshot]) (htold.sends hlisten))
  · rw [heq, sends_land]
    exact .inl rfl

end Engine

namespace Paced

theorem of_ledger (h : Paced sent g) (hledger : Ledger sent g') (hedits : g'.edits = g.edits)
    (hsends : g'.sends = g.sends) (hstatus : g'.status = g.status)
    (hedited : g'.edited = g.edited) : Paced sent g' where
  ledger := hledger
  edited := by
    unfold Engine.Fresh
    rw [hedits, hsends, hedited]
    exact h.edited
  shows := by
    unfold Engine.showsEdits
    rw [hedited, hstatus]
    exact h.shows

/-- Only the edits, the flight, the note and the indicator matter. -/
theorem of_eq (h : Paced sent g) (hedits : g'.edits = g.edits) (hflight : g'.flight = g.flight)
    (hsends : g'.sends = g.sends) (hstatus : g'.status = g.status)
    (hedited : g'.edited = g.edited) : Paced sent g' :=
  h.of_ledger (h.ledger.of_eq hedits hflight hsends) hedits hsends hstatus hedited

theorem unspoken (sent : List Batch) : Unspoken fun g : Engine ω => Paced sent g where
  tell := fun _ _ _ h => h.of_eq rfl rfl rfl rfl rfl
  order := fun g ws h => h.of_eq rfl rfl
    (congrArg (List.filterMap StoreCall.batch?) (Engine.asks_orders g.outbox ws)) rfl rfl

theorem land (h : Paced sent g) (failure? : Option Failure) : Paced sent (g.land failure?) :=
  h.of_ledger (h.ledger.land failure?) rfl (Engine.sends_land g failure?) rfl rfl

theorem launch (h : Paced sent g) : Paced sent g.launch :=
  h.of_ledger h.ledger.launch rfl (Engine.sends_launch g) rfl rfl

theorem reloads (h : Paced sent g) {batch : Batch} (hbatch : g.flight.batch? = some batch)
    (rows : List Setting) : Paced sent (g.reloads batch rows) :=
  h.of_ledger (h.ledger.reloads hbatch rows) rfl (Engine.sends_reloads g batch rows) rfl rfl

/-- Without a note there is none to be cleared. -/
theorem cleared (h : Paced sent g) (hedited : g.edited = false) :
    Paced sent { g with edited := false } :=
  h.of_eq rfl rfl rfl rfl hedited.symm

/-- The indicator may move as long as it shows what is to be sent. -/
theorem event (h : Paced sent g) {e : StatusEvent}
    (hshows : g.edited = true → (g.shows e).showsEdits = true) : Paced sent (g.shows e) where
  ledger := h.ledger.of_eq rfl rfl rfl
  edited := h.edited
  shows := hshows

theorem not_edited (h : Paced sent g) (hempty : g.edits.isEmpty = true) : g.edited = false := by
  apply Bool.of_not_eq_true
  intro hedited
  obtain ⟨e, he, -⟩ := h.edited.1 hedited
  rw [EditBuffer.isEmpty, List.isEmpty_iff] at hempty
  rw [hempty] at he
  cases he

/-- A batch of all edits leaves none that is in no batch. -/
theorem snapshot (h : Paced sent g) :
    Paced (g.edits.snapshot :: sent) { g with edited := false } where
  ledger := h.ledger.snapshot.of_eq rfl rfl rfl
  edited := by
    refine iff_of_false nofun ?_
    rintro ⟨e, he, hnone⟩
    exact hnone _ List.mem_cons_self (EditBuffer.snapshot_holds.2 he)
  shows := nofun

theorem send {batch : Batch} (h : Paced (batch :: sent) g) :
    Paced sent ({ g with flight := .saving batch }.emit (.update batch)) where
  ledger := h.ledger.send
  edited := by
    refine h.edited.trans (exists_congr fun e => ?_)
    rw [Engine.fresh_send]
    unfold Engine.Fresh
    rw [List.cons_append, List.forall_mem_cons]
    exact ⟨fun hf => ⟨⟨hf.1, hf.2.2⟩, hf.2.1⟩, fun hf => ⟨hf.1.1, hf.2, hf.1.2⟩⟩
  shows := h.shows

/-! ## Calls -/

theorem abiding (sent : List Batch) :
    Engine.Abiding (fun _ => Call.Plain) fun g : Engine ω => Paced sent g where
  unspoken := unspoken sent
  -- the new edit is noted, and it is in no batch
  edit := fun key value _ _ h =>
    ⟨(h.ledger.edit key value).event .edit,
      iff_of_true rfl ⟨_, Engine.fresh_edit h.ledger key value⟩, fun _ => rfl⟩
  quiet := fun _ h => h.of_eq rfl rfl rfl rfl rfl
  drop := fun _ hplain _ => hplain.elim
  rest := by
    intro g _ _ hempty h
    apply h.event
    intro hedited
    cases (h.not_edited hempty).symm.trans hedited
  close := fun h => h.of_eq rfl rfl rfl rfl rfl
  subscribe := fun _ _ h => h.of_eq rfl rfl rfl rfl rfl
  unsubscribe := fun handle h => h.of_eq rfl rfl rfl (Engine.status_unsubscribe _ handle) rfl
  request := fun _ h => h.of_eq rfl rfl rfl rfl rfl
  launch := fun _ h => h.launch
  load := fun h => h.of_eq rfl rfl rfl rfl rfl

end Paced

theorem Listening.paced (h : Listening (fun _ => Call.Plain) acting) (sent : List Batch) :
    Keeps (Paced sent) acting :=
  (Paced.abiding sent).keeps h

namespace Paced

/-! ## The flight -/

section Keeping

variable (hlisten : Listening (fun _ => Call.Plain) acting)
include hlisten

theorem sendBatch (h : Paced sent g) : Paced sent (g.sendBatch acting) := by
  rcases Engine.sendBatch_cases acting g with
    ⟨hempty, -, g', htold, heq⟩ | ⟨-, -, g', htold, heq⟩ | ⟨hrefused, failure?, heq⟩
  · have hidle : Paced sent ({ g with edited := false }.shows .idle) :=
      (h.cleared (h.not_edited hempty)).event fun hedited => nomatch hedited
    rw [heq]
    have htold : Paced sent { g' with requested := false } :=
      (htold.keeps (hlisten.paced sent) hidle).of_eq rfl rfl rfl rfl rfl
    exact htold.land none
  · -- while the listeners are told, the batch is taken and not yet in the outbox
    rw [heq]
    exact (htold.keeps (hlisten.paced _) (h.snapshot.event fun hedited => nomatch hedited)).send
  · -- the indicator allows it if there is something to send
    have hedited : g.edited = false := by
      apply Bool.of_not_eq_true
      intro hedited
      have hshows := Engine.showsEdits_iff.1 (h.shows hedited)
      split at hrefused <;> rcases hshows with hs | hs <;> rw [hs] at hrefused <;> cases hrefused
    rw [heq]
    exact (h.cleared hedited).land failure?

/-- What is sent while the engine notes an edit is new. -/
theorem sendBatch_advances (h : Paced sent g) (hedited : g.edited = true) :
    Engine.Advances sent g (g.sendBatch acting) := by
  rcases Engine.sendBatch_sends hlisten g with hsends | hsends
  · exact .inl hsends
  · obtain ⟨e, he, hnone⟩ := h.edited.1 hedited
    exact .inr ⟨_, hsends, e, EditBuffer.snapshot_holds.2 he, hnone⟩

theorem endRound (h : Paced sent g) :
    Paced sent (g.endRound acting) ∧ Engine.Advances sent g (g.endRound acting) := by
  have hdone : Paced sent { g with requested := false } := h.of_eq rfl rfl rfl rfl rfl
  rcases Engine.endRound_cases acting g with ⟨hagain, heq⟩ | ⟨-, heq⟩
  · -- the note is looked at before the flight goes round
    have hedited : g.edited = true := (Engine.goesAround_iff.1 hagain).2.1
    rw [heq]
    exact ⟨hdone.sendBatch hlisten, hdone.sendBatch_advances hlisten hedited⟩
  · rw [heq]
    exact ⟨hdone.land none, .inl (Engine.sends_land _ none)⟩

/-- A round may end after listeners were told. -/
theorem endRound_of_told {status : Status} (h : Paced sent g)
    (htold : Engine.Told acting status g g') (shown : Timer) :
    Paced sent (Engine.endRound acting { g' with shown }) ∧
      Engine.Advances sent g (Engine.endRound acting { g' with shown }) := by
  have hdone : Paced sent { g' with shown } :=
    (htold.keeps (hlisten.paced sent) h).of_eq rfl rfl rfl rfl rfl
  exact (hdone.endRound hlisten).imp_right fun hadvances =>
    hadvances.of_sends (htold.sends hlisten)

theorem updated (h : Paced sent g) (answer : Except Failure (List Setting)) :
    Paced sent (g.updated acting answer) ∧ Engine.Advances sent g (g.updated acting answer) := by
  cases hflight : g.flight with
  | saving batch =>
    have hbatch : g.flight.batch? = some batch := by rw [hflight]; rfl
    rcases Engine.updated_cases acting hflight answer with
      ⟨-, heq⟩ | ⟨-, rows, -, heq⟩ | ⟨-, f, -, ⟨-, failure?, heq⟩ | ⟨g', htold, heq⟩⟩
    · rw [heq]
      exact h.endRound hlisten
    · rw [heq]
      exact ⟨h.reloads hbatch rows, .inl (Engine.sends_reloads g batch rows)⟩
    · rw [heq]
      exact ⟨h.land failure?, .inl (Engine.sends_land g failure?)⟩
    · rw [heq]
      exact (h.event fun _ => rfl).endRound_of_told hlisten htold g'.shown
  | none | waiting | reloading =>
    have heq : g.updated acting answer = g := by simp [Engine.updated, hflight]
    rw [heq]
    exact ⟨h, .inl rfl⟩

theorem showSaved (h : Paced sent g) (hempty : g.edits.isEmpty = true) :
    Paced sent (g.showSaved acting) ∧ Engine.Advances sent g (g.showSaved acting) := by
  have hshows (e : StatusEvent) : Paced sent (g.shows e) := by
    apply h.event
    intro hedited
    rw [h.not_edited hempty] at hedited
    cases hedited
  rcases Engine.showSaved_cases acting g with ⟨-, g', htold, heq⟩ | ⟨-, g', htold, heq⟩
  · rw [heq]
    exact (hshows .saved).endRound_of_told hlisten htold _
  · rw [heq]
    exact (hshows .idle).endRound_of_told hlisten htold g'.shown

/-- Confirming a batch drops no edit that is noted. -/
theorem confirm (h : Paced sent g) {batch : Batch} (hbatch : g.flight.batch? = some batch)
    (rows : List Setting) (installed : Bool) :
    Paced sent (g.confirm acting batch rows installed) ∧
      Engine.Advances sent g (g.confirm acting batch rows installed) := by
  -- what is in no batch is not in this one either
  have hdone : Paced sent (g.confirmed batch rows installed) :=
    ⟨(h.ledger.discardFlushed batch).of_eq rfl rfl rfl,
      h.edited.trans (exists_congr fun _ =>
        (Engine.fresh_discardFlushed h.ledger (h.ledger.flight batch hbatch)).symm),
      h.shows⟩
  rcases Engine.confirm_cases acting g batch rows installed with
    ⟨failure, -, heq⟩ | ⟨hempty, heq⟩ | ⟨-, heq⟩
  · rw [heq]
    exact ⟨hdone.land _, .inl (Engine.sends_land _ _)⟩
  · rw [heq]
    exact hdone.showSaved hlisten hempty
  · rw [heq]
    exact hdone.endRound hlisten

theorem reloaded (h : Paced sent g) (answer : Except Failure Categories) :
    Paced sent (g.reloaded acting answer) ∧ Engine.Advances sent g (g.reloaded acting answer) := by
  cases hflight : g.flight with
  | reloading batch rows load =>
    have hload : Paced sent (g.withLoad load answer) := h.of_eq rfl rfl rfl rfl rfl
    have hbatch : (g.withLoad load answer).flight.batch? = some batch := by
      change g.flight.batch? = some batch
      rw [hflight]
      rfl
    rcases Engine.reloaded_cases acting hflight answer with
      ⟨-, heq⟩ | ⟨f, -, -, heq⟩ | ⟨-, -, heq⟩
    · rw [heq]
      exact hload.endRound hlisten
    · rw [heq]
      exact ⟨hload.land _, .inl (Engine.sends_land _ _)⟩
    · rw [heq]
      exact hload.confirm hlisten hbatch rows _
  | none | waiting | saving =>
    have heq : g.reloaded acting answer = g := by simp [Engine.reloaded, hflight]
    rw [heq]
    exact ⟨h, .inl rfl⟩

/-! ## Timers -/

omit hlisten in
theorem quietOver (h : Paced sent g) : Paced sent g.quietOver ∧ g.quietOver.sends = g.sends := by
  rcases Engine.quietOver_cases g with ⟨-, heq⟩ | ⟨-, -, heq⟩ | ⟨-, -, heq⟩
  · rw [heq]
    exact ⟨h, rfl⟩
  · rw [heq]
    exact ⟨h.of_eq rfl rfl rfl rfl rfl, rfl⟩
  · rw [heq]
    exact ⟨h.launch, Engine.sends_launch g⟩

theorem shownOver (h : Paced sent g) :
    Paced sent (g.shownOver acting) ∧ (g.shownOver acting).sends = g.sends := by
  rcases Engine.shownOver_cases acting g with heq | ⟨-, hsaved, htold⟩
  · rw [heq]
    exact ⟨h, rfl⟩
  · -- a status that shows a save leaves nothing to be noted
    have hidle : Paced sent (g.shows .idle) := by
      apply h.event
      intro hedited
      rcases Engine.showsEdits_iff.1 (h.shows hedited) with hs | hs <;>
        rw [hsaved] at hs <;> cases hs
    exact ⟨htold.keeps (hlisten.paced sent) hidle, htold.sends hlisten⟩

/-! ## Events -/

theorem turn (h : Paced sent g) {t : Turn} (ht : t ≠ .takeOff) :
    Paced sent (g.turn acting t) ∧ Engine.Advances sent g (g.turn acting t) := by
  cases t with
  | quietOver =>
    have hquiet : Paced sent { g with quiet := g.quiet.cancel } := h.of_eq rfl rfl rfl rfl rfl
    exact hquiet.quietOver.imp_right .inl
  | shownOver =>
    have hshown : Paced sent { g with shown := g.shown.cancel } := h.of_eq rfl rfl rfl rfl rfl
    exact (hshown.shownOver hlisten).imp_right .inl
  | takeOff => exact (ht rfl).elim
  | updated answer => exact h.updated hlisten answer
  | reloaded answer => exact h.reloaded hlisten answer
  | loaded load answer =>
    rw [Engine.turn_loaded]
    exact ⟨h.of_eq rfl rfl rfl rfl rfl, .inl rfl⟩

theorem takeOff (h : Paced sent g) : Paced sent (g.takeOff acting) := by
  have hdone : Paced sent { g with requested := false } := h.of_eq rfl rfl rfl rfl rfl
  exact hdone.sendBatch hlisten

theorem takeOff_advances (h : Paced sent g) (hedited : g.edited = true) :
    Engine.Advances sent g (g.takeOff acting) := by
  have hdone : Paced sent { g with requested := false } := h.of_eq rfl rfl rfl rfl rfl
  exact hdone.sendBatch_advances hlisten hedited

theorem after (h : Paced sent g) {ev : Event ω} (hplain : ev.Plain) :
    Paced sent (g.after acting ev) := by
  cases ev with
  | call c => exact (abiding sent).call (hlisten.paced sent) hplain h
  | turn t =>
    by_cases ht : t = .takeOff
    · exact ht ▸ h.takeOff hlisten
    · exact (h.turn hlisten ht).1
  | wait seconds => exact h.of_eq rfl rfl rfl rfl rfl

/-- Whatever is sent is new, but for a flight that takes off without a note. -/
theorem after_advances (h : Paced sent g) {ev : Event ω}
    (hev : ¬ (ev = .turn .takeOff ∧ g.edited = false)) :
    Engine.Advances sent g (g.after acting ev) := by
  cases ev with
  | call c => exact .inl (Engine.call_sends hlisten g c)
  | turn t =>
    by_cases ht : t = .takeOff
    · subst ht
      exact h.takeOff_advances hlisten (Bool.of_not_eq_false fun hedited => hev ⟨rfl, hedited⟩)
    · exact (h.turn hlisten ht).2
  | wait seconds => exact .inl rfl

end Keeping

/-- What the outbox sends is sent once the outbox is emptied. -/
theorem drained (h : Paced sent g) : Paced (sent ++ g.sends) { g with outbox := [] } where
  ledger := h.ledger.drained
  edited := h.edited.trans (exists_congr fun _ => Engine.fresh_drained.symm)
  shows := h.shows

end Paced

/-! ## In the course of events -/

namespace Course

theorem Reachable.paced {c : Course ω}
    (h : c.Reachable (fun _ => Event.Plain) (Listening fun _ => Call.Plain)) :
    Paced c.sent c.engine := by
  obtain ⟨metas, rules, quietPeriod, shownFor, hleads⟩ := h
  induction hleads with
  | refl =>
    refine ⟨(sound_start metas rules quietPeriod shownFor).ledger, ?_, nofun⟩
    exact iff_of_false nofun fun ⟨_, he, _⟩ => nomatch he
  | step _ hlisten _ hplain ih =>
    rw [sent_after]
    exact (ih.after hlisten hplain).drained

/-- As long as edits are neither dropped nor saved at once, every event sends one batch at most, and
it holds an edit that was in no batch before, unless a flight takes off without any edit since the
last batch. -/
theorem batch_is_new_iff {c : Course ω} {ev : Event ω}
    (hc : c.Reachable (fun _ => Event.Plain) (Listening fun _ => Call.Plain))
    (hlisten : Listening (fun _ => Call.Plain) acting) (hplain : ev.Plain) :
    ∃ new : Option Batch, (c.after acting ev).sent = c.sent ++ new.toList ∧
      ∀ batch, new = some batch →
        ((∃ e, batch.Holds e ∧ c.Unsent e) ↔
          ¬ (ev = .turn .takeOff ∧ c.engine.edited = false)) := by
  have hpaced := hc.paced
  have hsends := hc.sound.sends
  rw [sent_after]
  by_cases hstale : ev = .turn .takeOff ∧ c.engine.edited = false
  · obtain ⟨rfl, hedited⟩ := hstale
    -- all edits are in some batch, so the one of all edits is not new
    have hnone : ∀ e ∈ c.engine.edits.edits, ¬ c.Unsent e := by
      intro e he hunsent
      have hnoted := hpaced.edited.2 ⟨e, hc.sound.fresh_iff.2 ⟨he, hunsent⟩⟩
      exact absurd (hnoted.symm.trans hedited) nofun
    have hcases : (c.engine.after acting (.turn .takeOff)).sends = c.engine.sends ∨
        (c.engine.after acting (.turn .takeOff)).sends =
          c.engine.sends ++ [c.engine.edits.snapshot] :=
      Engine.sendBatch_sends hlisten { c.engine with requested := false }
    rcases hcases with heq | heq
    · exact ⟨none, by rw [heq, hsends]; rfl, nofun⟩
    · refine ⟨some c.engine.edits.snapshot, by rw [heq, hsends]; rfl, ?_⟩
      rintro _ ⟨⟩
      refine iff_of_false ?_ fun hnot => hnot ⟨rfl, hedited⟩
      rintro ⟨e, hholds, hunsent⟩
      exact hnone e (EditBuffer.snapshot_holds.1 hholds) hunsent
  · -- any other batch goes out with a noted edit
    rcases hpaced.after_advances hlisten hstale with heq | ⟨batch, heq, e, he, hnone⟩
    · exact ⟨none, by rw [heq, hsends]; rfl, nofun⟩
    · refine ⟨some batch, by rw [heq, hsends]; rfl, ?_⟩
      rintro _ ⟨⟩
      rw [hsends, List.append_nil] at hnone
      exact iff_of_true ⟨e, he, hnone⟩ hstale

/-- An edit is made in a quiet period's time after another, and a third one before the first batch
is refused. The flight goes round and the second batch is refused as well, and then the quiet period
of the third edit is over. -/
def refusedTwice : List (Event Unit) :=
  let refused := Event.turn (.updated (.error (.plain .save none)))
  [.call (.change "key" "first"), .wait 1, .turn .quietOver, .turn .takeOff,
    .call (.change "key" "second"), .wait 1, .turn .quietOver, .call (.change "key" "third"),
    refused, refused, .wait 1, .turn .quietOver]

theorem reachable_refusedTwice :
    ((start [] [] 1 1).run .silent refusedTwice).Reachable (fun _ => Event.Plain)
      (Listening fun _ => Call.Plain) := by
  refine ⟨[], [], 1, 1, leads_run (.aloof aloof_silent) (by decide +kernel) ?_⟩
  intro _ ev hev
  simp only [refusedTwice, List.mem_cons, List.not_mem_nil, or_false] at hev
  rcases hev with rfl | rfl | rfl | rfl | rfl | rfl | rfl | rfl | rfl | rfl | rfl | rfl <;> trivial

/-- The flight that then takes off sends a batch that holds nothing new. -/
theorem leftover_batch_is_not_new :
    let c : Course Unit := (start [] [] 1 1).run .silent refusedTwice
    ∃ batch, (c.after .silent (.turn .takeOff)).sent = c.sent ++ [batch] ∧
      ¬ ∃ e, batch.Holds e ∧ c.Unsent e := by
  intro c
  have hplain : (Event.turn .takeOff : Event Unit).Plain := trivial
  obtain ⟨new, hsent, hiff⟩ :=
    batch_is_new_iff reachable_refusedTwice (.aloof aloof_silent) hplain
  have hagain : (c.after .silent (.turn .takeOff)).sent = c.sent ++ [⟨[("key", "third")], [3]⟩] :=
    rfl
  cases new with
  | none =>
    rw [hagain] at hsent
    exact absurd (List.append_cancel_left hsent) nofun
  | some batch => exact ⟨batch, hsent, fun hnew => (hiff batch rfl).1 hnew ⟨rfl, rfl⟩⟩

/-- A batch that was refused can be sent again without an edit: the last one of these is the one
before, and nothing was edited since. -/
theorem refused_batch_is_sent_again :
    ∃ (c : Course Unit) (batch : Batch),
      c.Reachable (fun _ => Event.Plain) (Listening fun _ => Call.Plain) ∧
        c.sent.getLast? = some batch ∧ c.engine.status = .error ∧ c.engine.edited = false ∧
        c.Ready (.turn .takeOff) ∧
        (c.after .silent (.turn .takeOff)).sent = c.sent ++ [batch] :=
  ⟨_, ⟨[("key", "third")], [3]⟩, reachable_refusedTwice, rfl, rfl, rfl, rfl, rfl⟩

end Course

end DeferredSave
