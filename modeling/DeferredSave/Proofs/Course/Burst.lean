import DeferredSave.Proofs.Course.Refusal
import DeferredSave.Proofs.Course.Shown
import DeferredSave.Proofs.Edit.History

/-!
# A burst of edits

Edits that follow each other within the quiet period are saved together: while they come in they are
gathered, when the quiet period of the last one is over a flight is asked for, and its first turn
sends them all as one batch. Whatever becomes of that batch, the engine by itself sends no other
(`Course.burst_is_sent_once`).
-/

namespace DeferredSave

variable {ω : Type} {acting : Engine.Acting ω} {g g' : Engine ω} {delay last due : Rat}
  {log : List (String × String)} {sends : List Batch}

namespace Engine

/-! ## Gathering -/

/-- Edits are gathered, the last one at the time `last`, while nothing else is done about them. -/
structure Gathering (delay last : Rat) (log : List (String × String)) (g : Engine ω) : Prop where
  opened : g.closed = false
  flight : g.flight = .none
  status : g.status = .pending
  shown : g.shown.pending = none
  period : g.quiet.delay = delay
  quiet : ∃ a, g.quiet.pending = some a ∧ a.due = last + delay
  items : g.edits.items = lastEdits log
  since : last ≤ g.now
  till : g.now ≤ max last (last + delay)

/-- A flight is asked for, which is to take the gathered edits at the time `due`. -/
structure Asked (due : Rat) (log : List (String × String)) (g : Engine ω) : Prop where
  flight : g.flight = .waiting
  status : g.status = .pending
  shown : g.shown.pending = none
  quiet : g.quiet.pending = none
  items : g.edits.items = lastEdits log
  now : g.now = due

/-- An edit without a flight starts the quiet period, whatever the engine was at before. -/
theorem change_gathering (haloof : Aloof acting) (hopen : g.closed = false)
    (hflight : g.flight = .none) {key value : String}
    (hitems : (g.edits.set key value).items = lastEdits log) :
    Gathering g.quiet.delay g.now log (g.change acting key value).1 ∧
      (g.change acting key value).1.sends = g.sends := by
  obtain ⟨g', htold, heq⟩ := change_of_open acting hopen key value
  obtain ⟨notices, outbox, rfl, hasks⟩ := htold.of_aloof haloof
  rw [heq]
  refine ⟨?_, congrArg (List.filterMap StoreCall.batch?) hasks⟩
  exact ⟨hopen, hflight, rfl, rfl, rfl, ⟨_, rfl, rfl⟩, hitems, Rat.le_refl, le_max_left _ _⟩

theorem Gathering.said (h : g.Gathering delay last log) :
    Gathering delay last log { g with outbox := [] } :=
  ⟨h.opened, h.flight, h.status, h.shown, h.period, h.quiet, h.items, h.since, h.till⟩

theorem Asked.said (h : g.Asked due log) : Asked due log { g with outbox := [] } :=
  ⟨h.flight, h.status, h.shown, h.quiet, h.items, h.now⟩

theorem Gathering.wait (h : g.Gathering delay last log) {seconds : Rat} (hlater : 0 ≤ seconds)
    (htill : g.now + seconds ≤ max last (last + delay)) :
    Gathering delay last log { g with now := g.now + seconds } := by
  have hsince : last ≤ g.now + seconds := by grind [h.since]
  exact ⟨h.opened, h.flight, h.status, h.shown, h.period, h.quiet, h.items, hsince, htill⟩

/-- When the quiet period is over, a flight is asked for. -/
theorem Gathering.quietOver (h : g.Gathering delay last log) (acting : Acting ω)
    (hexpired : (g.quiet.due? g.now).isSome = true) :
    Asked (max last (last + delay)) log (g.turn acting .quietOver) ∧
      (g.turn acting .quietOver).sends = g.sends := by
  obtain ⟨a, ha, hdue⟩ := h.quiet
  obtain ⟨a', ha'⟩ := Option.isSome_iff_exists.1 hexpired
  obtain ⟨hpending, hreached⟩ := Timer.due?_eq_some_iff.1 ha'
  cases ha.symm.trans hpending
  have hnow : g.now = max last (last + delay) := by
    have hsince := h.since
    have htill := h.till
    grind
  change Asked _ log (Engine.quietOver { g with quiet := g.quiet.cancel }) ∧
    (Engine.quietOver { g with quiet := g.quiet.cancel }).sends = g.sends
  rcases quietOver_cases { g with quiet := g.quiet.cancel } with
    ⟨hclosed, -⟩ | ⟨-, hflying, -⟩ | ⟨-, -, heq⟩
  · cases h.opened.symm.trans hclosed
  · simp [flying, h.flight] at hflying
  · rw [heq, sends_launch]
    exact ⟨⟨rfl, h.status, h.shown, rfl, h.items, hnow⟩, rfl⟩

/-! ## Once the batch is sent -/

/-- Nothing asks for another batch: no flight is to take off or to go round again, and no quiet
period is running. -/
structure Dispatched (due : Rat) (sends : List Batch) (g : Engine ω) : Prop where
  flight : g.flight ≠ .waiting
  quiet : g.quiet.pending = none
  requested : g.requested = false
  reached : due ≤ g.now
  sends : g.sends = sends

/-- The first turn of the flight sends all edits. -/
theorem Asked.takeOff (h : g.Asked due log) (haloof : Aloof acting) (hsome : log ≠ []) :
    ∃ batch, batch.Joins log ∧
      Dispatched due (g.sends ++ [batch]) (g.turn acting .takeOff) ∧
        (g.turn acting .takeOff).now = due := by
  have hedits : g.edits.isEmpty = false := by
    apply Bool.of_not_eq_true
    intro hempty
    have hitems := h.items
    rw [EditBuffer.items, List.isEmpty_iff.1 hempty, List.map_nil, eq_comm,
      lastEdits_eq_nil_iff] at hitems
    exact hsome hitems
  refine ⟨g.edits.snapshot, EditBuffer.snapshot_joins h.items, ?_⟩
  change Dispatched due _ (sendBatch acting { g with requested := false }) ∧
    (sendBatch acting { g with requested := false }).now = due
  rcases sendBatch_cases acting { g with requested := false } with
    ⟨hempty, -⟩ | ⟨-, -, g', htold, heq⟩ | ⟨hrefused, -⟩
  · cases hedits.symm.trans hempty
  · obtain ⟨notices, outbox, rfl, hasks⟩ := htold.of_aloof haloof
    rw [heq]
    refine ⟨⟨?_, h.quiet, rfl, h.now ▸ Rat.le_refl, ?_⟩, h.now⟩
    · intro hwaiting
      cases hwaiting
    rw [sends_update]
    exact congrArg (· ++ _) (congrArg (List.filterMap StoreCall.batch?) hasks)
  · have hstatus : g.status.canBecome (if g.edits.isEmpty then .idle else .saving) = false :=
      hrefused
    rw [hedits, h.status] at hstatus
    cases hstatus

theorem dispatched_unspoken (due : Rat) (sends : List Batch) :
    Unspoken fun g : Engine ω => Dispatched due sends g where
  tell := fun _ _ _ h => ⟨h.flight, h.quiet, h.requested, h.reached, h.sends⟩
  order := by
    intro g ws h
    refine ⟨h.flight, h.quiet, h.requested, h.reached, ?_⟩
    rw [← h.sends]
    exact congrArg (List.filterMap StoreCall.batch?) (asks_orders g.outbox ws)

namespace Dispatched

variable (h : g.Dispatched due sends)
include h

theorem land (failure? : Option Failure) : (g.land failure?).Dispatched due sends :=
  ⟨nofun, h.quiet, h.requested, h.reached, (sends_land g failure?).trans h.sends⟩

/-- A flight that is not to go round again is over at the end of its round. -/
theorem endRound (acting : Acting ω) : (g.endRound acting).Dispatched due sends := by
  rcases endRound_cases acting g with ⟨hagain, -⟩ | ⟨-, heq⟩
  · cases h.requested.symm.trans (goesAround_iff.1 hagain).1
  · rw [heq]
    have hdone : Dispatched due sends { g with requested := false } :=
      ⟨h.flight, h.quiet, rfl, h.reached, h.sends⟩
    exact hdone.land none

variable (haloof : Aloof acting)
include haloof

theorem told {e : StatusEvent} (htold : Told acting e.target (g.shows e) g') :
    g'.Dispatched due sends := by
  refine htold.keeps (haloof.keeps (dispatched_unspoken due sends)) ?_
  exact ⟨h.flight, h.quiet, h.requested, h.reached, h.sends⟩

theorem updated (answer : Except Failure (List Setting)) :
    (g.updated acting answer).Dispatched due sends := by
  cases hflight : g.flight with
  | saving batch =>
    rcases updated_cases acting hflight answer with
      ⟨-, heq⟩ | ⟨-, rows, -, heq⟩ | ⟨-, f, -, ⟨-, failure?, heq⟩ | ⟨g', htold, heq⟩⟩
    · exact heq ▸ h.endRound acting
    · rw [heq]
      exact ⟨nofun, h.quiet, h.requested, h.reached, (sends_reloads g batch rows).trans h.sends⟩
    · exact heq ▸ h.land failure?
    · exact heq ▸ (h.told haloof (e := .failed _) htold).endRound acting
  | none | waiting | reloading => simpa [Engine.updated, hflight] using h

theorem showSaved : (g.showSaved acting).Dispatched due sends := by
  rcases showSaved_cases acting g with ⟨-, g', htold, heq⟩ | ⟨-, g', htold, heq⟩
  · have htold := h.told haloof (e := .saved) htold
    have hshown : Dispatched due sends { g' with shown := g'.shown.arm g'.now } :=
      ⟨htold.flight, htold.quiet, htold.requested, htold.reached, htold.sends⟩
    exact heq ▸ hshown.endRound acting
  · exact heq ▸ (h.told haloof (e := .idle) htold).endRound acting

theorem reloaded (answer : Except Failure Categories) :
    (g.reloaded acting answer).Dispatched due sends := by
  cases hflight : g.flight with
  | reloading batch rows load =>
    have hload : (g.withLoad load answer).Dispatched due sends :=
      ⟨h.flight, h.quiet, h.requested, h.reached, h.sends⟩
    rcases reloaded_cases acting hflight answer with ⟨-, heq⟩ | ⟨f, -, -, heq⟩ | ⟨-, -, heq⟩
    · exact heq ▸ hload.endRound acting
    · exact heq ▸ hload.land (some f)
    · rw [heq]
      have hdone : ((g.withLoad load answer).confirmed batch rows
          (g.installs load answer)).Dispatched due sends :=
        ⟨h.flight, h.quiet, h.requested, h.reached, h.sends⟩
      rcases confirm_cases acting (g.withLoad load answer) batch rows (g.installs load answer) with
        ⟨failure, -, heq⟩ | ⟨-, heq⟩ | ⟨-, heq⟩
      · exact heq ▸ hdone.land _
      · exact heq ▸ hdone.showSaved haloof
      · exact heq ▸ hdone.endRound acting
  | none | waiting | saving => simpa [Engine.reloaded, hflight] using h

theorem shownOver : (g.turn acting .shownOver).Dispatched due sends := by
  change (Engine.shownOver acting { g with shown := g.shown.cancel }).Dispatched due sends
  have hcancelled : Dispatched due sends { g with shown := g.shown.cancel } :=
    ⟨h.flight, h.quiet, h.requested, h.reached, h.sends⟩
  rcases shownOver_cases acting { g with shown := g.shown.cancel } with heq | ⟨-, -, htold⟩
  · exact heq.symm ▸ hcancelled
  · exact hcancelled.told haloof (e := .idle) htold

end Dispatched

end Engine

namespace Course

/-! ## In the course of events -/

/-- The engine is left alone: nobody calls it, timers expire when they are due, and a flight that is
asked for takes off before time goes on. -/
def Alone (c : Course ω) : Event ω → Prop
  | .call _ => False
  | .turn _ => True
  | .wait seconds => c.Punctual (.wait seconds) ∧ c.engine.flight ≠ .waiting

instance (c : Course ω) : (ev : Event ω) → Decidable (c.Alone ev)
  | .call _ => isFalse id
  | .turn _ => isTrue trivial
  | .wait _ => inferInstanceAs (Decidable (_ ∧ _))

/-- Edits are made one after the other, each of them within the quiet period of the one before, and
otherwise the engine is left alone. The last of them was made at the time `last`. -/
inductive Burst (c : Course ω) : List (String × String) → Rat → Course ω → Prop where
  | first {acting : Engine.Acting ω} (key value : String) :
      Aloof acting → (c.engine.change acting key value).2 = .ok () →
      Burst c [(key, value)] c.engine.now (c.after acting (.call (.change key value)))
  | goesOn {log : List (String × String)} {last : Rat} {c' c'' : Course ω} :
      Burst c log last c' → c'.Leads Alone Aloof c'' → Burst c log last c''
  | next {log : List (String × String)} {last : Rat} {c' : Course ω} {acting : Engine.Acting ω}
      (key value : String) :
      Burst c log last c' → Aloof acting → c'.engine.now < last + c.engine.quiet.delay →
      Burst c (log ++ [(key, value)]) c'.engine.now
        (c'.after acting (.call (.change key value)))

/-- How far the saving of a burst is. -/
inductive Stage (sent : List Batch) (delay last : Rat) (log : List (String × String))
    (c : Course ω) : Prop where
  | gathering : c.engine.Gathering delay last log → c.engine.sends = [] → c.sent = sent →
      Stage sent delay last log c
  | asked : c.engine.Asked (max last (last + delay)) log → c.engine.sends = [] → c.sent = sent →
      Stage sent delay last log c
  | dispatched {batch : Batch} : c.engine.Dispatched (max last (last + delay)) [] →
      batch.Joins log → c.sent = sent ++ [batch] → Stage sent delay last log c

section Stages

variable {c c' : Course ω} {ev : Event ω} {sent : List Batch}

theorem gathering_after (h : (c.engine.after acting ev).Gathering delay last log)
    (hsends : (c.engine.after acting ev).sends = []) (hsent : c.sent = sent) :
    Stage sent delay last log (c.after acting ev) := by
  exact .gathering h.said rfl (by rw [sent_after, hsends, List.append_nil, hsent])

theorem asked_after (h : (c.engine.after acting ev).Asked (max last (last + delay)) log)
    (hsends : (c.engine.after acting ev).sends = []) (hsent : c.sent = sent) :
    Stage sent delay last log (c.after acting ev) := by
  exact .asked h.said rfl (by rw [sent_after, hsends, List.append_nil, hsent])

theorem dispatched_after {batch : Batch}
    (h : (c.engine.after acting ev).Dispatched (max last (last + delay)) sends)
    (hjoins : batch.Joins log) (hsent : c.sent ++ sends = sent ++ [batch]) :
    Stage sent delay last log (c.after acting ev) := by
  refine .dispatched ?_ hjoins (by rw [sent_after, h.sends, hsent])
  exact ⟨h.flight, h.quiet, h.requested, h.reached, rfl⟩

theorem not_due {t : Timer} {now : Rat} (h : t.pending = none) :
    ¬ (t.due? now).isSome = true := by
  simp [Timer.due?, h]

theorem Gathering.stage_after (h : c.engine.Gathering delay last log)
    (hsends : c.engine.sends = []) (hsent : c.sent = sent) (hready : c.Ready ev)
    (halone : c.Alone ev) : Stage sent delay last log (c.after acting ev) := by
  cases ev with
  | call call => exact halone.elim
  | wait seconds =>
    obtain ⟨a, ha, hdue⟩ := h.quiet
    have hbound := halone.1 a (Engine.mem_armings.2 (.inl ha))
    have htill : c.engine.now + seconds ≤ max last (last + delay) := by grind [h.till]
    exact gathering_after (h.wait hready htill) hsends hsent
  | turn t =>
    cases t with
    | quietOver =>
      obtain ⟨hasked, heq⟩ := h.quietOver acting hready
      exact asked_after hasked (heq.trans hsends) hsent
    | shownOver => exact (not_due h.shown hready).elim
    | takeOff => cases h.flight.symm.trans hready
    | updated answer =>
      obtain ⟨batch, hflight⟩ := hready
      cases h.flight.symm.trans hflight
    | reloaded answer =>
      obtain ⟨batch, rows, load, hflight⟩ := hready
      cases h.flight.symm.trans hflight
    | loaded load answer =>
      refine gathering_after ?_ ?_ hsent
      · change (c.engine.turn acting (.loaded load answer)).Gathering delay last log
        rw [Engine.turn_loaded]
        exact ⟨h.opened, h.flight, h.status, h.shown, h.period, h.quiet, h.items, h.since, h.till⟩
      · change (c.engine.turn acting (.loaded load answer)).sends = []
        rw [Engine.turn_loaded]
        exact hsends

theorem Asked.stage_after (h : c.engine.Asked (max last (last + delay)) log)
    (hsends : c.engine.sends = []) (hsent : c.sent = sent) (hsome : log ≠ [])
    (haloof : Aloof acting) (hready : c.Ready ev) (halone : c.Alone ev) :
    Stage sent delay last log (c.after acting ev) := by
  cases ev with
  | call call => exact halone.elim
  | wait seconds => exact (halone.2 h.flight).elim
  | turn t =>
    cases t with
    | quietOver => exact (not_due h.quiet hready).elim
    | shownOver => exact (not_due h.shown hready).elim
    | takeOff =>
      obtain ⟨batch, hjoins, hdispatched, -⟩ := h.takeOff haloof hsome
      exact dispatched_after hdispatched hjoins (by rw [hsends, hsent, List.nil_append])
    | updated answer =>
      obtain ⟨batch, hflight⟩ := hready
      cases h.flight.symm.trans hflight
    | reloaded answer =>
      obtain ⟨batch, rows, load, hflight⟩ := hready
      cases h.flight.symm.trans hflight
    | loaded load answer =>
      refine asked_after ?_ ?_ hsent
      · change (c.engine.turn acting (.loaded load answer)).Asked _ log
        rw [Engine.turn_loaded]
        exact ⟨h.flight, h.status, h.shown, h.quiet, h.items, h.now⟩
      · change (c.engine.turn acting (.loaded load answer)).sends = []
        rw [Engine.turn_loaded]
        exact hsends

theorem Dispatched.stage_after {batch : Batch}
    (h : c.engine.Dispatched (max last (last + delay)) []) (hjoins : batch.Joins log)
    (hsent : c.sent = sent ++ [batch]) (haloof : Aloof acting) (hready : c.Ready ev)
    (halone : c.Alone ev) : Stage sent delay last log (c.after acting ev) := by
  have hstill : (c.engine.after acting ev).Dispatched (max last (last + delay)) [] := by
    cases ev with
    | call call => exact halone.elim
    | wait seconds =>
      have hlater : 0 ≤ seconds := hready
      have hreached := h.reached
      refine ⟨h.flight, h.quiet, h.requested, ?_, h.sends⟩
      change max last (last + delay) ≤ c.engine.now + seconds
      grind
    | turn t =>
      cases t with
      | quietOver => exact (not_due h.quiet hready).elim
      | shownOver => exact h.shownOver haloof
      | takeOff => exact (h.flight hready).elim
      | updated answer => exact h.updated haloof answer
      | reloaded answer => exact h.reloaded haloof answer
      | loaded load answer =>
        change (c.engine.turn acting (.loaded load answer)).Dispatched _ _
        rw [Engine.turn_loaded]
        exact ⟨h.flight, h.quiet, h.requested, h.reached, h.sends⟩
  exact dispatched_after hstill hjoins (by rw [hsent, List.append_nil])

/-- An engine that is left alone goes from one stage to the next, and stays in the last one. -/
theorem Stage.leads (h : Stage sent delay last log c) (hsome : log ≠ [])
    (hleads : c.Leads Alone Aloof c') : Stage sent delay last log c' := by
  induction hleads with
  | refl => exact h
  | step _ haloof hready halone ih =>
    cases ih with
    | gathering hg hsends hsent => exact Gathering.stage_after hg hsends hsent hready halone
    | asked hg hsends hsent => exact Asked.stage_after hg hsends hsent hsome haloof hready halone
    | dispatched hg hjoins hsent =>
      exact Dispatched.stage_after hg hjoins hsent haloof hready halone

end Stages

/-! ## The whole burst -/

variable {c c' : Course ω}

theorem Burst.run {evs : List (Event ω)} (h : c.Burst log last c') (haloof : Aloof acting)
    (hruns : c'.Runs acting evs) (halone : c'.Meets Alone acting evs) :
    c.Burst log last (c'.run acting evs) :=
  h.goesOn (halone.leads haloof hruns)

theorem Burst.log_ne_nil (h : c.Burst log last c') : log ≠ [] := by
  induction h with
  | first => simp
  | goesOn _ _ ih => exact ih
  | next => simp

theorem Burst.stage (hsound : c.Sound) (hflight : c.engine.flight = .none)
    (hempty : c.engine.edits.isEmpty = true) (h : c.Burst log last c') :
    Stage c.sent c.engine.quiet.delay last log c' := by
  induction h with
  | @first acting key value haloof haccepted =>
    have hopen : c.engine.closed = false := by
      apply Bool.of_not_eq_true
      intro hclosed
      rw [Engine.snd_change, if_pos hclosed] at haccepted
      cases haccepted
    have hitems : (c.engine.edits.set key value).items = lastEdits [(key, value)] := by
      have hnone : c.engine.edits.items = lastEdits [] := by
        rw [EditBuffer.items, List.isEmpty_iff.1 hempty]
        rfl
      exact EditBuffer.items_set_eq hnone key value
    obtain ⟨hgathering, hsends⟩ :=
      Engine.change_gathering (g := c.engine) haloof hopen hflight hitems
    exact gathering_after hgathering (hsends.trans hsound.sends) rfl
  | goesOn hburst hleads ih => exact ih.leads hburst.log_ne_nil hleads
  | @next log last c' acting key value hburst haloof hsoon ih =>
    cases ih with
    | gathering hg hsends hsent =>
      obtain ⟨hgathering, heq⟩ := Engine.change_gathering haloof hg.opened hg.flight
        (EditBuffer.items_set_eq hg.items key value)
      rw [hg.period] at hgathering
      exact gathering_after hgathering (heq.trans hsends) hsent
    -- later on there is no time left for another edit
    | asked hg _ _ =>
      have hnow := hg.now
      grind
    | dispatched hg _ _ =>
      have hreached := hg.reached
      grind

section Sending

variable {sent : List Batch}

/-- The batch can be sent now. -/
theorem Asked.exists_sent (h : c.engine.Asked due log) (hsends : c.engine.sends = [])
    (hsome : log ≠ []) :
    ∃ c' batch, c.Leads Alone Aloof c' ∧ c'.engine.now = due ∧ batch.Joins log ∧
      c'.sent = c.sent ++ [batch] := by
  obtain ⟨batch, hjoins, hdispatched, hnow⟩ := h.takeOff aloof_silent hsome
  have hready : c.Ready (.turn .takeOff) := h.flight
  refine ⟨_, batch, Leads.refl.step aloof_silent hready trivial, hnow, hjoins, ?_⟩
  have hsends' := hdispatched.sends
  rw [hsends, List.nil_append] at hsends'
  rw [sent_after]
  exact congrArg (c.sent ++ ·) hsends'

/-- An engine that is left alone does send the gathered edits, when the quiet period is over. -/
theorem Gathering.exists_sent (h : c.engine.Gathering delay last log)
    (hsends : c.engine.sends = []) (hsome : log ≠ []) :
    ∃ c' batch, c.Leads Alone Aloof c' ∧ c'.engine.now = max last (last + delay) ∧
      batch.Joins log ∧ c'.sent = c.sent ++ [batch] := by
  let seconds := max last (last + delay) - c.engine.now
  let c₁ := c.after .silent (.wait seconds)
  let c₂ := c₁.after .silent (.turn .quietOver)
  have hnow : c.engine.now + seconds = max last (last + delay) := by grind
  have hlater : 0 ≤ seconds := by grind [h.till]
  obtain ⟨a, ha, hdue⟩ := h.quiet
  -- time goes by until the quiet period is over
  have halone : c.Alone (.wait seconds) := by
    refine ⟨fun a' ha' => ?_, fun hwaiting => nomatch h.flight.symm.trans hwaiting⟩
    obtain ha' | ha' := Engine.mem_armings.1 ha'
    · cases ha.symm.trans ha'
      grind [h.since]
    · cases h.shown.symm.trans ha'
  have hwaited : c₁.engine.Gathering delay last log := (h.wait hlater (by grind)).said
  have hexpired : c₁.Ready (.turn .quietOver) := by
    change (c.engine.quiet.due? (c.engine.now + seconds)).isSome = true
    rw [Timer.due?_eq_some_iff.2 ⟨ha, by grind⟩]
    rfl
  -- then the flight is asked for
  obtain ⟨hasked, hsends'⟩ := hwaited.quietOver .silent hexpired
  have hasked : c₂.engine.Asked (max last (last + delay)) log := hasked.said
  obtain ⟨c', batch, hleads, hdone, hjoins, hsent⟩ := Asked.exists_sent hasked rfl hsome
  have hwait : c.Ready (.wait seconds) := hlater
  refine ⟨c', batch, Leads.trans ?_ hleads, hdone, hjoins, ?_⟩
  · exact (Leads.refl.step aloof_silent hwait halone).step aloof_silent hexpired trivial
  · have hsent₁ : c₁.sent = c.sent := by
      rw [sent_after]
      exact (congrArg (c.sent ++ ·) hsends).trans (List.append_nil _)
    have hsent₂ : c₂.sent = c.sent := by
      rw [sent_after, hsent₁]
      exact (congrArg (c.sent ++ ·) hsends').trans (List.append_nil _)
    rw [hsent, hsent₂]

end Sending

/-- Edits within the quiet period of each other are sent as one batch, which holds each key once
with its last value in the order of the last edits: not before the quiet period of the last edit is
over, and just then. Nothing else is sent, whatever the store answers, until somebody calls the
engine again. -/
theorem burst_is_sent_once {c : Course ω}
    (hreach : c.Reachable (fun _ _ => True) (Listening fun _ _ => True))
    (hflight : c.engine.flight = .none) (hempty : c.engine.edits.isEmpty = true)
    (h : c.Burst log last c') :
    let due := max last (last + c.engine.quiet.delay)
    (c'.sent = c.sent ∧ c'.engine.now ≤ due ∧
        ∃ c'' batch, c'.Leads Alone Aloof c'' ∧ c''.engine.now = due ∧ batch.Joins log ∧
          c''.sent = c.sent ++ [batch]) ∨
      (due ≤ c'.engine.now ∧ ∃ batch, batch.Joins log ∧ c'.sent = c.sent ++ [batch]) := by
  intro due
  have hsome := h.log_ne_nil
  cases h.stage hreach.sound hflight hempty with
  | gathering hg hsends hsent =>
    exact .inl ⟨hsent, hg.till, hsent ▸ Gathering.exists_sent hg hsends hsome⟩
  | asked hg hsends hsent =>
    exact .inl ⟨hsent, hg.now ▸ Rat.le_refl, hsent ▸ Asked.exists_sent hg hsends hsome⟩
  | dispatched hg hjoins hsent => exact .inr ⟨hg.reached, _, hjoins, hsent⟩

/-- Three edits of two keys are sent when the quiet period of the last one is over, and not again
when they cannot be stored. -/
theorem burst_is_not_sent_again :
    let c : Course Unit := start [] [] 1 2
    let first := (c.after .silent (.call (.change "a" "1"))).run .silent [.wait (1 / 2)]
    let second := (first.after .silent (.call (.change "b" "2"))).run .silent [.wait (1 / 2)]
    let third := (second.after .silent (.call (.change "a" "3"))).run .silent [
      .wait 1, .turn .quietOver, .turn .takeOff, .turn (.updated (.error .engineClosed)), .wait 5]
    third.engine.status = .error ∧ third.engine.now = 7 ∧
      ∃ batch, batch.Joins [("a", "1"), ("b", "2"), ("a", "3")] ∧ third.sent = [batch] := by
  intro c first second third
  have hreach : c.Reachable (fun _ _ => True) (Listening fun _ _ => True) :=
    ⟨[], [], 1, 2, .refl⟩
  have hfirst : c.Burst [("a", "1")] c.engine.now first :=
    (Burst.first "a" "1" aloof_silent rfl).run aloof_silent (by decide +kernel)
      ⟨by decide +kernel, trivial⟩
  have hsecond : c.Burst [("a", "1"), ("b", "2")] first.engine.now second :=
    (hfirst.next "b" "2" aloof_silent (by decide +kernel)).run aloof_silent (by decide +kernel)
      ⟨by decide +kernel, trivial⟩
  have hthird : c.Burst [("a", "1"), ("b", "2"), ("a", "3")] second.engine.now third :=
    (hsecond.next "a" "3" aloof_silent (by decide +kernel)).run aloof_silent (by decide +kernel)
      ⟨by decide +kernel, trivial, trivial, trivial, by decide +kernel, trivial⟩
  obtain ⟨hnone, -⟩ | ⟨-, hsent⟩ := burst_is_sent_once hreach rfl rfl hthird
  · exact absurd hnone (by decide +kernel)
  · exact ⟨by decide +kernel, by decide +kernel, hsent⟩

end Course

end DeferredSave
