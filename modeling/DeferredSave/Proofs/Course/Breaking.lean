import DeferredSave.Proofs.Course.Pacing
import DeferredSave.Proofs.Course.Standing

/-!
# What a failure of the store leaves behind

However the store fails, a flight ends well but in one case (`Course.ends_well_unless_unforeseen`):
the status of an open engine without a batch under way is not that of a save, the edits of a stored
batch have left the buffer, and edits that are to be saved at once have been sent. The case is a
load after a save that fails in no way a load may fail. It breaks the flight off where it stands.
-/

namespace DeferredSave

variable {ω : Type} {acting : Engine.Acting ω} {g g' : Engine ω} {sent : List Batch}
  {admitted : Engine ω → Call ω → Prop}

/-- The event is the call that makes an edit. -/
def Event.Edits : Event ω → Prop
  | .call (.change ..) => True
  | _ => False

/-- Only the load after a save fails in a way that is not foreseen. -/
theorem Event.exists_of_not_foreseen {ev : Event ω} (h : ¬ ev.Foreseen) :
    ∃ f, ev = .turn (.reloaded (.error f)) ∧ f.isFetch = false := by
  unfold Foreseen at h
  split at h
  · exact ⟨_, rfl, Bool.eq_false_iff.2 h⟩
  · exact (h trivial).elim

/-- Edits are to be saved now: their quiet period is over, or this is asked for. -/
def Event.Hastens : Event ω → Prop
  | .turn .quietOver | .call .flushNow => True
  | _ => False

namespace Engine

/-! ## A save that is shown and not under way -/

/-- The indicator shows a save though no batch is under way. -/
def Stalled (g : Engine ω) : Prop := g.flight.batch? = none ∧ g.status = .saving

theorem stalled_congr (hflight : g'.flight.batch? = g.flight.batch?)
    (hstatus : g'.status = g.status) : g'.Stalled ↔ g.Stalled := by
  unfold Stalled
  rw [hflight, hstatus]

theorem not_stalled (h : g.status ≠ .saving) : ¬ g.Stalled :=
  fun hstalled => h hstalled.2

theorem not_stalled_of_batch {batch : Batch} (h : g.flight.batch? = some batch) : ¬ g.Stalled := by
  rintro ⟨hnone, -⟩
  cases h.symm.trans hnone

/-- No call shows a save. -/
theorem unsaving_abiding :
    Abiding (fun _ _ => True) fun g : Engine ω => g.status ≠ .saving where
  unspoken := ⟨fun _ _ _ h => h, fun _ _ h => h⟩
  edit := fun _ _ _ _ _ => nofun
  quiet := fun _ h => h
  drop := fun _ _ h => h
  rest := fun _ _ _ _ => nofun
  close := fun h => h
  subscribe := fun _ _ h => h
  unsubscribe := fun {g} handle h => status_unsubscribe g handle ▸ h
  request := fun _ h => h
  launch := fun _ h => h
  load := fun h => h

end Engine

theorem Listening.unsaving (h : Listening admitted acting) :
    Keeps (fun g : Engine ω => g.status ≠ .saving) acting :=
  Engine.unsaving_abiding.keeps h.any

namespace Engine

section

variable (hlisten : Listening admitted acting)
include hlisten

/-- Only a save that is shown already keeps a flight from taking its batch and shows on. -/
theorem sendBatch_stalled_iff : (g.sendBatch acting).Stalled ↔ g.status = .saving := by
  rcases sendBatch_cases acting g with
    ⟨-, hbecome, g', htold, heq⟩ | ⟨-, hbecome, g', -, heq⟩ | ⟨-, failure?, heq⟩
  · have hstatus : g.status ≠ .saving := by
      intro hs
      rw [hs] at hbecome
      cases hbecome
    have htold : g'.status ≠ .saving := htold.keeps hlisten.unsaving nofun
    rw [heq]
    exact iff_of_false (not_stalled htold) hstatus
  · have hstatus : g.status ≠ .saving := by
      intro hs
      rw [hs] at hbecome
      cases hbecome
    rw [heq]
    refine iff_of_false ?_ hstatus
    rintro ⟨⟨⟩, -⟩
  · rw [heq]
    exact and_iff_right rfl

theorem endRound_stalled_iff : (g.endRound acting).Stalled ↔ g.status = .saving := by
  rcases endRound_cases acting g with ⟨-, heq⟩ | ⟨-, heq⟩
  · rw [heq]
    exact sendBatch_stalled_iff hlisten
  · rw [heq]
    exact and_iff_right rfl

/-- The failure of a save is shown, and then the save is not. -/
theorem updated_not_stalled (hopen : g.closed = false) {batch : Batch}
    (hflight : g.flight = .saving batch) (answer : Except Failure (List Setting)) :
    ¬ (g.updated acting answer).Stalled := by
  rcases updated_cases acting hflight answer with
    ⟨hclosed, -⟩ | ⟨-, rows, -, heq⟩ | ⟨-, f, -, ⟨hrefused, failure?, heq⟩ | ⟨g', htold, heq⟩⟩
  · cases hclosed.symm.trans hopen
  · rw [heq]
    rintro ⟨⟨⟩, -⟩
  · rw [heq]
    rintro ⟨-, hs⟩
    have hs : g.status = .saving := hs
    rw [hs] at hrefused
    cases hrefused
  · have htold : g'.status ≠ .saving := htold.keeps hlisten.unsaving nofun
    rw [heq, endRound_stalled_iff hlisten]
    exact htold

theorem showSaved_not_stalled : ¬ (g.showSaved acting).Stalled := by
  rcases showSaved_cases acting g with ⟨-, g', htold, heq⟩ | ⟨-, g', htold, heq⟩
  · have htold : g'.status ≠ .saving := htold.keeps hlisten.unsaving nofun
    rw [heq, endRound_stalled_iff hlisten]
    exact htold
  · have htold : g'.status ≠ .saving := htold.keeps hlisten.unsaving nofun
    rw [heq, endRound_stalled_iff hlisten]
    exact htold

theorem confirm_not_stalled (hledger : Ledger sent g) (haloft : g.Aloft) {batch : Batch}
    (hbatch : g.flight.batch? = some batch) (rows : List Setting) (installed : Bool) :
    ¬ (g.confirm acting batch rows installed).Stalled := by
  rcases confirm_cases acting g batch rows installed with
    ⟨failure, hmismatch, -⟩ | ⟨-, heq⟩ | ⟨hsome, heq⟩
  · -- the batch under way was sent, and what was sent has its revisions
    have hknows := hledger.knows batch (hledger.flight batch hbatch)
    obtain ⟨dropped, hdropped⟩ := hknows.discardFlushed_ok
    cases hmismatch.symm.trans hdropped
  · rw [heq]
    exact showSaved_not_stalled hlisten
  · have hpending : g.status = .pending :=
      (haloft batch hbatch).pending_of_left hledger hbatch hsome
    rw [heq, endRound_stalled_iff hlisten]
    intro hs
    cases hpending.symm.trans hs

theorem reloaded_stalled_iff (hledger : Ledger sent g) (haloft : g.Aloft) (hopen : g.closed = false)
    {batch : Batch} {rows : List Setting} {load : Nat}
    (hflight : g.flight = .reloading batch rows load) (answer : Except Failure Categories) :
    (g.reloaded acting answer).Stalled ↔
      ¬ (Event.turn (.reloaded answer) : Event ω).Foreseen ∧ g.status = .saving := by
  rcases reloaded_cases acting hflight answer with
    ⟨hclosed, -⟩ | ⟨f, rfl, hfetch, heq⟩ | ⟨-, hanswer, heq⟩
  · cases hclosed.symm.trans hopen
  · have hunforeseen : ¬ (Event.turn (.reloaded (.error f)) : Event ω).Foreseen := by
      intro hforeseen
      cases hfetch.symm.trans hforeseen
    rw [heq]
    exact (and_iff_right rfl).trans (and_iff_right hunforeseen).symm
  · have hforeseen : (Event.turn (.reloaded answer) : Event ω).Foreseen := by
      cases answer with
      | ok categories => trivial
      | error f => exact hanswer f rfl
    have hload : Ledger sent (g.withLoad load answer) := hledger.withLoad load answer
    have hbatch : (g.withLoad load answer).flight.batch? = some batch := by
      change g.flight.batch? = some batch
      rw [hflight]
      rfl
    rw [heq]
    exact iff_of_false (confirm_not_stalled hlisten hload (haloft.of_eq rfl rfl rfl) hbatch rows _)
      fun h => h.1 hforeseen

theorem shownOver_stalled_iff : (g.shownOver acting).Stalled ↔ g.Stalled := by
  rcases shownOver_cases acting g with heq | ⟨-, hsaved, htold⟩
  · rw [heq]
  · have hbefore : g.status ≠ .saving := by
      rw [hsaved]
      nofun
    exact iff_of_false (not_stalled (htold.keeps hlisten.unsaving nofun)) (not_stalled hbefore)

omit hlisten in
theorem quietOver_stalled_iff : g.quietOver.Stalled ↔ g.Stalled := by
  rcases quietOver_cases g with ⟨-, heq⟩ | ⟨-, -, heq⟩ | ⟨-, hflying, heq⟩
  · rw [heq]
  · rw [heq]
    exact stalled_congr rfl rfl
  · have hnone : g.flight = .none := by simpa [flying] using hflying
    rw [heq]
    exact stalled_congr (by rw [hnone]; rfl) rfl

/-- Of all calls, that of an edit and no other ends it. -/
theorem call_stalled_iff {c : Call ω} (hopen : g.closed = false) :
    (g.call acting c).Stalled ↔ g.Stalled ∧ ¬ (Event.call c).Edits := by
  have hkept {P : Prop} (hedits : ¬ (Event.call c).Edits) (hiff : P ↔ g.Stalled) :
      P ↔ g.Stalled ∧ ¬ (Event.call c).Edits :=
    hiff.trans (and_iff_left hedits).symm
  cases c with
  | change key value =>
    obtain ⟨g', htold, heq⟩ := change_of_open acting hopen key value
    have hpending : g'.status ≠ .saving := htold.keeps hlisten.unsaving nofun
    refine iff_of_false ?_ fun h => h.2 trivial
    change ¬ (g.change acting key value).1.Stalled
    rw [heq]
    exact not_stalled hpending
  | discard keys? =>
    refine hkept id ?_
    change (g.discard acting keys?).1.Stalled ↔ _
    rcases discard_cases acting g keys? with heq | ⟨-, heq | ⟨-, hshows, g', htold, heq⟩⟩
    · rw [heq]
      exact stalled_congr rfl rfl
    · rw [heq]
      exact stalled_congr rfl rfl
    · -- a save that is shown is no edit that is shown
      have hbefore : g.status ≠ .saving := by
        rcases showsEdits_iff.1 hshows with hs | hs <;> rw [hs] <;> nofun
      have hafter : g'.status ≠ .saving := htold.keeps hlisten.unsaving nofun
      rw [heq]
      exact iff_of_false (not_stalled hafter) (not_stalled hbefore)
  | flushNow =>
    refine hkept id ?_
    change g.flushNow.1.Stalled ↔ _
    rcases flushNow_cases g with
      ⟨-, heq⟩ | ⟨-, -, heq⟩ | ⟨-, -, -, heq⟩ | ⟨-, hflying, -, heq⟩
    · rw [heq]
    · rw [heq]
      exact stalled_congr rfl rfl
    · rw [heq]
      exact stalled_congr rfl rfl
    · have hnone : g.flight = .none := by simpa [flying] using hflying
      rw [heq]
      exact stalled_congr (by rw [hnone]; rfl) rfl
  | refresh =>
    refine hkept id ?_
    change g.refresh.1.Stalled ↔ _
    unfold refresh
    split <;> exact stalled_congr rfl rfl
  | close =>
    refine hkept id ?_
    change g.close.Stalled ↔ _
    unfold close
    split <;> exact stalled_congr rfl rfl
  | subscribe listener reply? => exact hkept id (stalled_congr rfl rfl)
  | unsubscribe handle => exact hkept id (stalled_congr rfl (status_unsubscribe g handle))

end

/-! ## A batch that is stored -/

/-- No call brings an edit of the batch back. -/
theorem rid_abiding (batch : Batch) :
    Abiding (fun _ _ => True) fun g : Engine ω => g.edits.Rid batch where
  unspoken := ⟨fun _ _ _ h => h, fun _ _ h => h⟩
  edit := fun key value _ _ h => h.set key value
  quiet := fun _ h => h
  drop := fun {g} keys? _ h => h.of_sublist (g.edits.discard_sublist keys?)
  rest := fun _ _ _ h => h
  close := fun h => h
  subscribe := fun _ _ h => h
  unsubscribe := fun _ h => h
  request := fun _ h => h
  launch := fun _ h => h
  load := fun h => h

end Engine

theorem Listening.rid (h : Listening admitted acting) (batch : Batch) :
    Keeps (fun g : Engine ω => g.edits.Rid batch) acting :=
  (Engine.rid_abiding batch).keeps h.any

namespace Engine

theorem steady_rid (hlisten : Listening admitted acting) (batch : Batch) :
    Steady (fun g : Engine ω => g.edits.Rid batch) acting :=
  ⟨hlisten.rid batch, fun _ h => h, fun h hedits _ _ => hedits.symm ▸ h⟩

/-- Edits of the batch never come back. -/
theorem rid_after {batch : Batch} (h : g.edits.Rid batch) (hlisten : Listening admitted acting)
    (ev : Event ω) : (g.after acting ev).edits.Rid batch := by
  cases ev with
  | call c => exact (rid_abiding batch).call (hlisten.rid batch) trivial h
  | wait seconds => exact h
  | turn t =>
    refine (steady_rid hlisten batch).turn h ?_
    intro _ _ batch' _ _ _
    exact h.of_sublist (g.edits.discardFlushed_sublist batch')

/-- Once the load after a save is answered, the edits of the batch are gone. -/
theorem reloaded_rid (hledger : Ledger sent g) (hlisten : Listening admitted acting) {batch : Batch}
    {rows : List Setting} {load : Nat} (hflight : g.flight = .reloading batch rows load)
    (hopen : g.closed = false) {answer : Except Failure Categories}
    (hanswer : ∀ f, answer = .error f → f.isFetch = true) :
    (g.reloaded acting answer).edits.Rid batch := by
  have hknows : g.edits.Knows batch :=
    hledger.knows batch (hledger.flight batch (by rw [hflight]; rfl))
  have hdropped : ((g.withLoad load answer).edits.discardFlushed batch).1.Rid batch :=
    hknows.rid_discardFlushed hledger.orderly
  rw [reloaded_of_open hflight hopen hanswer]
  exact Steady.confirm (g := g.withLoad load answer) (steady_rid hlisten batch) hdropped rows _

/-! ## Edits that are to be saved at once -/

variable {e : Edit}

/-- The edit is to be saved at once: the flight has yet to take its batch, or goes round for it. -/
def Overdue (e : Edit) (g : Engine ω) : Prop :=
  e ∈ g.edits.edits ∧ (g.flight = .waiting ∨ (g.flying = true ∧ g.requested = true))

/-- The edit is in a batch that the outbox sends. -/
def Takes (e : Edit) (g : Engine ω) : Prop := ∃ batch ∈ g.sends, batch.Holds e

/-- No call takes back that the flight has to go round, but for the one that ends the engine. -/
theorem requested_abiding :
    Abiding (fun _ _ => True) fun g : Engine ω => g.requested = true ∨ g.closed = true where
  unspoken := ⟨fun _ _ _ h => h, fun _ _ h => h⟩
  edit := fun _ _ _ _ h => h
  quiet := fun _ h => h
  drop := fun _ _ h => h
  rest := fun _ _ _ h => h
  close := fun _ => .inr rfl
  subscribe := fun _ _ h => h
  unsubscribe := fun _ h => h
  request := fun _ _ => .inl rfl
  launch := fun _ h => h
  load := fun h => h

end Engine

theorem Listening.requested (h : Listening admitted acting) :
    Keeps (fun g : Engine ω => g.requested = true ∨ g.closed = true) acting :=
  Engine.requested_abiding.keeps h.any

namespace Engine

variable {e : Edit}

/-- What is to be saved at once is taken up by the next event of a kind, or still to be saved at
once. An engine that is closed saves nothing any more. -/
def Follows (e : Edit) (g : Engine ω) : Prop := g.closed = true ∨ g.Takes e ∨ g.Overdue e

/-- A new flight takes up what there is, and a flight under way goes round for it. -/
theorem overdue_of_hastens {ev : Event ω} (hev : ev.Hastens) (he : e ∈ g.edits.edits)
    (hopen : g.closed = false) : (g.after acting ev).Overdue e := by
  cases ev with
  | wait seconds => exact hev.elim
  | call c =>
    cases c with
    | flushNow =>
      change g.flushNow.1.Overdue e
      rcases flushNow_cases g with
        ⟨hclosed, -⟩ | ⟨-, hflying, heq⟩ | ⟨-, -, hempty, -⟩ | ⟨-, -, -, heq⟩
      · cases hclosed.symm.trans hopen
      · exact heq ▸ ⟨he, .inr ⟨hflying, rfl⟩⟩
      · exact (not_mem_of_isEmpty hempty e he).elim
      · exact heq ▸ ⟨he, .inl rfl⟩
    | change | discard | refresh | close | subscribe | unsubscribe => exact hev.elim
  | turn t =>
    cases t with
    | quietOver =>
      change (Engine.quietOver _).Overdue e
      rcases quietOver_cases { g with quiet := g.quiet.cancel } with
        ⟨hclosed, -⟩ | ⟨-, hflying, heq⟩ | ⟨-, -, heq⟩
      · cases hclosed.symm.trans hopen
      · exact heq ▸ ⟨he, .inr ⟨hflying, rfl⟩⟩
      · exact heq ▸ ⟨he, .inl rfl⟩
    | shownOver | takeOff | updated | reloaded | loaded => exact hev.elim

/-- An edit in no batch is taken when the flight takes one. -/
theorem sendBatch_takes (h : Mindful sent g) (hfresh : g.Fresh sent e) :
    (g.sendBatch acting).Takes e := by
  rcases sendBatch_cases acting g with
    ⟨hempty, -⟩ | ⟨-, -, g', -, heq⟩ | ⟨hrefused, -⟩
  · exact (not_mem_of_isEmpty hempty e hfresh.1).elim
  · refine ⟨g.edits.snapshot, ?_, EditBuffer.snapshot_holds.2 hfresh.1⟩
    rw [heq, sends_update]
    exact List.mem_append_right _ (List.mem_singleton.2 rfl)
  · cases hrefused.symm.trans (h.allows hfresh)

section

variable (hlisten : Listening (Retains e.key) acting)
include hlisten

/-- The flight goes round for an edit in no batch. -/
theorem endRound_follows (h : Mindful sent g) (hfresh : g.Fresh sent e)
    (hrequested : g.requested = true ∨ g.closed = true) : (g.endRound acting).Follows e := by
  cases hclosed : g.closed with
  | true => exact .inl ((steady_closed hlisten).endRound hclosed)
  | false =>
    have hrequested : g.requested = true := by simpa [hclosed] using hrequested
    have hagain : g.goesAround = true :=
      goesAround_iff.2 ⟨hrequested, (h.fresh e hfresh).1, isEmpty_of_mem hfresh.1, hclosed⟩
    have hdone : Mindful sent { g with requested := false } := h.of_eq rfl rfl rfl rfl rfl
    rcases endRound_cases acting g with ⟨-, heq⟩ | ⟨hstays, -⟩
    · rw [heq]
      exact .inr (.inl (sendBatch_takes hdone hfresh))
    · cases hagain.symm.trans hstays

theorem updated_follows (h : Mindful sent g) (haloft : g.Aloft) (hfresh : g.Fresh sent e)
    {batch : Batch} (hflight : g.flight = .saving batch) (hrequested : g.requested = true)
    (answer : Except Failure (List Setting)) : (g.updated acting answer).Follows e := by
  rcases updated_cases acting hflight answer with
    ⟨-, heq⟩ | ⟨-, rows, -, heq⟩ | ⟨-, f, -, ⟨hrefused, -⟩ | ⟨g', htold, heq⟩⟩
  · exact heq ▸ endRound_follows hlisten h hfresh (.inl hrequested)
  · exact heq ▸ .inr (.inr ⟨hfresh.1, .inr ⟨rfl, hrequested⟩⟩)
  · -- the failure can always be shown
    obtain hs | ⟨hs, -⟩ := haloft batch (by rw [hflight]; rfl) <;> rw [hs] at hrefused <;>
      cases hrefused
  · have hstill : g'.Fresh sent e := by
      refine ⟨htold.keeps hlisten.keeps_edit hfresh.1, ?_⟩
      rw [htold.sends hlisten]
      exact hfresh.2
    rw [heq]
    exact endRound_follows hlisten (h.failed hlisten htold) hstill
      (htold.keeps hlisten.requested (.inl hrequested))

/-- An edit that the batch does not hold is still there when the batch is confirmed. -/
theorem confirm_follows (h : Mindful sent g) (hfresh : g.Fresh sent e) {batch : Batch}
    (hbatch : g.flight.batch? = some batch) (hrequested : g.requested = true)
    (rows : List Setting) (installed : Bool) :
    (g.confirm acting batch rows installed).Follows e := by
  have hsent := h.ledger.flight batch hbatch
  have hleft : (g.confirmed batch rows installed).Fresh sent e :=
    (fresh_discardFlushed h.ledger hsent).2 hfresh
  rcases confirm_cases acting g batch rows installed with
    ⟨failure, hmismatch, -⟩ | ⟨hempty, -⟩ | ⟨-, heq⟩
  · obtain ⟨dropped, hdropped⟩ := (h.ledger.knows batch hsent).discardFlushed_ok
    cases hmismatch.symm.trans hdropped
  · exact (not_mem_of_isEmpty hempty e hleft.1).elim
  · rw [heq]
    exact endRound_follows hlisten (h.confirmed batch rows installed) hleft (.inl hrequested)

theorem reloaded_follows (h : Mindful sent g) (hfresh : g.Fresh sent e) {batch : Batch}
    {rows : List Setting} {load : Nat} (hflight : g.flight = .reloading batch rows load)
    (hrequested : g.requested = true) {answer : Except Failure Categories}
    (hforeseen : (Event.turn (.reloaded answer) : Event ω).Foreseen) :
    (g.reloaded acting answer).Follows e := by
  have hload := h.withLoad load answer
  rcases reloaded_cases acting hflight answer with
    ⟨-, heq⟩ | ⟨f, rfl, hfetch, -⟩ | ⟨-, -, heq⟩
  · exact heq ▸ endRound_follows hlisten hload hfresh (.inl hrequested)
  · cases hfetch.symm.trans hforeseen
  · have hbatch : (g.withLoad load answer).flight.batch? = some batch := by
      change g.flight.batch? = some batch
      rw [hflight]
      rfl
    exact heq ▸ confirm_follows hlisten hload hfresh hbatch hrequested rows _

theorem Overdue.call (h : g.Overdue e) {c : Call ω} (hretains : g.Retains e.key c) :
    (g.call acting c).Follows e := by
  obtain ⟨he, hflight⟩ := h
  have hthere : e ∈ (g.call acting c).edits.edits :=
    (edit_abiding e).call hlisten.keeps_edit hretains he
  have hflying : g.flying = true := by
    obtain hwaiting | ⟨hflying, -⟩ := hflight
    · simp [flying, hwaiting]
    · exact hflying
  have hstays : (g.call acting c).flight = g.flight := by
    obtain hstays | ⟨hnone, -⟩ := call_flight hlisten g c
    · exact hstays
    · simp [flying, hnone] at hflying
  obtain hwaiting | ⟨-, hrequested⟩ := hflight
  · exact .inr (.inr ⟨hthere, .inl (hstays.trans hwaiting)⟩)
  · have hafter := requested_abiding.call hlisten.requested (c := c) trivial (.inl hrequested)
    obtain hrequested | hclosed := hafter
    · refine .inr (.inr ⟨hthere, .inr ⟨?_, hrequested⟩⟩)
      unfold flying
      rwa [hstays]
    · exact .inl hclosed

theorem Overdue.shownOver (h : g.Overdue e) : (g.shownOver acting).Follows e := by
  rcases shownOver_cases acting g with heq | ⟨-, -, htold⟩
  · rw [heq]
    exact .inr (.inr h)
  · obtain ⟨he, hflight⟩ := h
    have hthere : e ∈ (g.shownOver acting).edits.edits := htold.keeps hlisten.keeps_edit he
    obtain hwaiting | ⟨hflying, hrequested⟩ := hflight
    · exact .inr (.inr ⟨hthere, .inl ((htold.flight hlisten).trans hwaiting)⟩)
    · obtain hrequested | hclosed := htold.keeps hlisten.requested (.inl hrequested)
      · exact .inr (.inr ⟨hthere, .inr ⟨htold.flying hlisten hflying, hrequested⟩⟩)
      · exact .inl hclosed

end

end Engine

/-! ## In the course of events -/

namespace Course

/-- What is to be saved at once is sent by the next event of a foreseen kind, or is still to be
saved at once. -/
theorem follows_after {c : Course ω} {e : Edit} {ev : Event ω} (h : Mindful c.sent c.engine)
    (haloft : c.engine.Aloft) (hfresh : c.engine.Fresh c.sent e) (hover : c.engine.Overdue e)
    (hlisten : Listening (Engine.Retains e.key) acting) (hready : c.Ready ev)
    (hretains : c.Retains e.key ev) (hforeseen : ev.Foreseen) :
    (c.engine.after acting ev).Follows e := by
  cases ev with
  | call call => exact hover.call hlisten hretains
  | wait seconds => exact .inr (.inr hover)
  | turn t =>
    -- a flight whose batch is under way is one that goes round
    have hrequested (hnot : c.engine.flight ≠ .waiting) : c.engine.requested = true :=
      (hover.2.resolve_left hnot).2
    cases t with
    | quietOver =>
      cases hclosed : c.engine.closed with
      | true => exact .inl (Engine.closed_after hlisten hclosed (.turn .quietOver))
      | false =>
        have hev : (Event.turn .quietOver : Event ω).Hastens := trivial
        exact .inr (.inr (Engine.overdue_of_hastens hev hover.1 hclosed))
    | shownOver =>
      have hshown : Engine.Overdue e { c.engine with shown := c.engine.shown.cancel } := hover
      exact hshown.shownOver hlisten
    | takeOff =>
      have hdone : Mindful c.sent { c.engine with requested := false } :=
        h.of_eq rfl rfl rfl rfl rfl
      exact .inr (.inl (Engine.sendBatch_takes hdone hfresh))
    | updated answer =>
      obtain ⟨batch, hflight⟩ := hready
      refine Engine.updated_follows hlisten h haloft hfresh hflight (hrequested ?_) answer
      rw [hflight]
      nofun
    | reloaded answer =>
      obtain ⟨batch, rows, load, hflight⟩ := hready
      refine Engine.reloaded_follows hlisten h hfresh hflight (hrequested ?_) hforeseen
      rw [hflight]
      nofun
    | loaded load answer =>
      change (c.engine.turn acting (.loaded load answer)).Follows e
      rw [Engine.turn_loaded]
      exact .inr (.inr hover)

/-- As long as every failure is foreseen, and the edit is left while it is there, what is to be
saved at once gets sent unless the engine is closed. -/
theorem Leads.follows_while {c c' : Course ω} {e : Edit}
    (h : c.Leads
      (fun c ev => (e ∈ c.engine.edits.edits → c.Retains e.key ev) ∧ ev.Foreseen)
      (Listening (Engine.Retains e.key)) c')
    (hc : c.Reachable (fun _ _ => True) (Listening fun _ _ => True))
    (hover : c.engine.Overdue e) :
    c'.engine.closed = true ∨ (∃ batch ∈ c'.sent, batch.Holds e) ∨ c'.engine.Overdue e := by
  induction h with
  | refl => exact .inr (.inr hover)
  | @step c' acting ev hsteps hlisten hready hev ih =>
    have hreach : c'.Reachable (fun _ _ => True) (Listening fun _ _ => True) :=
      hc.trans (hsteps.mono (fun _ _ _ => trivial) fun _ hl => hl.mono fun _ _ _ => trivial)
    rw [sent_after]
    obtain hclosed | ⟨batch, hbatch, hholds⟩ | hover' := ih
    · exact .inl (Engine.closed_after hlisten hclosed ev)
    · exact .inr (.inl ⟨batch, List.mem_append_left _ hbatch, hholds⟩)
    · by_cases hunsent : c'.Unsent e
      · have hfresh : c'.engine.Fresh c'.sent e := hreach.sound.fresh_iff.2 ⟨hover'.1, hunsent⟩
        obtain hclosed | ⟨batch, hbatch, hholds⟩ | hover'' :=
          follows_after hreach.mindful hreach.aloft hfresh hover' hlisten hready (hev.1 hover'.1)
            hev.2
        · exact .inl hclosed
        · exact .inr (.inl ⟨batch, List.mem_append_right _ hbatch, hholds⟩)
        · exact .inr (.inr hover'')
      · -- a batch that holds the edit was sent before
        obtain ⟨batch, hbatch, hholds⟩ : ∃ batch ∈ c'.sent, batch.Holds e := by
          simpa [Unsent] using hunsent
        exact .inr (.inl ⟨batch, List.mem_append_left _ hbatch, hholds⟩)

theorem Leads.follows {c c' : Course ω} {e : Edit}
    (h : c.Leads (fun c ev => c.Retains e.key ev ∧ ev.Foreseen)
      (Listening (Engine.Retains e.key)) c')
    (hc : c.Reachable (fun _ _ => True) (Listening fun _ _ => True))
    (hover : c.engine.Overdue e) :
    c'.engine.closed = true ∨ (∃ batch ∈ c'.sent, batch.Holds e) ∨ c'.engine.Overdue e :=
  (h.mono (fun _ _ hev => ⟨fun _ => hev.1, hev.2⟩) fun _ => id).follows_while hc hover

theorem Leads.rid {events : Course ω → Event ω → Prop} {c c' : Course ω} {batch : Batch}
    (h : c.Leads events (Listening admitted) c') (hrid : c.engine.edits.Rid batch) :
    c'.engine.edits.Rid batch := by
  induction h with
  | refl => exact hrid
  | step _ hlisten _ _ ih => exact Engine.rid_after ih hlisten _

theorem stalled_after_iff {c : Course ω} {ev : Event ω} (hledger : Ledger c.sent c.engine)
    (haloft : c.engine.Aloft) (hlisten : Listening admitted acting) (hready : c.Ready ev)
    (hopen : c.engine.closed = false) :
    (c.engine.after acting ev).Stalled ↔
      (¬ ev.Foreseen ∧ c.engine.status = .saving) ∨ (c.engine.Stalled ∧ ¬ ev.Edits) := by
  -- all but the load after a save is foreseen, and no turn is an edit
  have hkept {P : Prop} (hforeseen : ev.Foreseen) (hiff : P ↔ c.engine.Stalled ∧ ¬ ev.Edits) :
      P ↔ (¬ ev.Foreseen ∧ c.engine.status = .saving) ∨ (c.engine.Stalled ∧ ¬ ev.Edits) :=
    hiff.trans (or_iff_right fun h => h.1 hforeseen).symm
  cases ev with
  | call call => exact hkept trivial (Engine.call_stalled_iff hlisten hopen)
  | wait seconds => exact hkept trivial (and_iff_left id).symm
  | turn t =>
    have hstays {P : Prop} (hiff : P ↔ c.engine.Stalled) :
        P ↔ c.engine.Stalled ∧ ¬ (Event.turn t : Event ω).Edits :=
      hiff.trans (and_iff_left id).symm
    cases t with
    | quietOver => exact hkept trivial (hstays Engine.quietOver_stalled_iff)
    | shownOver => exact hkept trivial (hstays (Engine.shownOver_stalled_iff hlisten))
    | takeOff =>
      have hwaiting : c.engine.flight = .waiting := hready
      refine hkept trivial (hstays ((Engine.sendBatch_stalled_iff hlisten).trans ?_))
      exact (and_iff_right (by rw [hwaiting]; rfl)).symm
    | updated answer =>
      obtain ⟨batch, hflight⟩ := hready
      refine hkept trivial (hstays (iff_of_false ?_ ?_))
      · exact Engine.updated_not_stalled hlisten hopen hflight answer
      · exact Engine.not_stalled_of_batch (by rw [hflight]; rfl)
    | reloaded answer =>
      obtain ⟨batch, rows, load, hflight⟩ := hready
      have hbefore : ¬ c.engine.Stalled := Engine.not_stalled_of_batch (by rw [hflight]; rfl)
      have hiff := Engine.reloaded_stalled_iff hlisten hledger haloft hopen hflight answer
      exact hiff.trans (or_iff_left fun h => hbefore h.1).symm
    | loaded load answer =>
      refine hkept trivial (hstays ?_)
      change (c.engine.turn acting (.loaded load answer)).Stalled ↔ _
      rw [Engine.turn_loaded]
      exact Engine.stalled_congr rfl rfl

theorem breaks_of_unforeseen {c : Course ω} {ev : Event ω} (hsound : c.Sound) (hready : c.Ready ev)
    (hopen : c.engine.closed = false) (hunforeseen : ¬ ev.Foreseen) :
    (c.after acting ev).engine.flight = .none ∧
      (c.after acting ev).engine.status = c.engine.status ∧
      (c.after acting ev).engine.edits = c.engine.edits ∧ (c.after acting ev).sent = c.sent := by
  obtain ⟨f, rfl, hfetch⟩ := Event.exists_of_not_foreseen hunforeseen
  obtain ⟨batch, rows, load, hflight⟩ := hready
  have heq : c.engine.reloaded acting (.error f) =
      (c.engine.withLoad load (.error f)).land (some f) := by
    rcases Engine.reloaded_cases acting hflight (.error f) with
      ⟨hclosed, -⟩ | ⟨_, ⟨⟩, -, heq⟩ | ⟨-, hanswer, -⟩
    · cases hclosed.symm.trans hopen
    · exact heq
    · cases hfetch.symm.trans (hanswer f rfl)
  have hsends : (c.engine.after acting (.turn (.reloaded (.error f)))).sends = [] := by
    change (c.engine.reloaded acting (.error f)).sends = []
    rw [heq, Engine.sends_land]
    exact hsound.sends
  refine ⟨?_, ?_, ?_, ?_⟩
  · change (c.engine.reloaded acting (.error f)).flight = _
    rw [heq]
    rfl
  · change (c.engine.reloaded acting (.error f)).status = _
    rw [heq]
    rfl
  · change (c.engine.reloaded acting (.error f)).edits = _
    rw [heq]
    rfl
  · rw [sent_after, hsends, List.append_nil]

/-- An event ends the flight, if it ends it, with nothing left undone but where it is not
foreseen. -/
structure EndsWell (c : Course ω) (ev : Event ω) (c' : Course ω) : Prop where
  /-- The engine stalls at an unforeseen event while the save is shown, and from then on until an
  edit is made. -/
  stalls : c'.engine.Stalled ↔
    (¬ ev.Foreseen ∧ c.engine.status = .saving) ∨ (c.engine.Stalled ∧ ¬ ev.Edits)
  /-- Once the load after a save is answered, the edits of the stored batch have left the buffer for
  good. -/
  leaves : ev.Foreseen → ∀ batch rows load answer, c.engine.flight = .reloading batch rows load →
    ev = .turn (.reloaded answer) →
    ∀ c'', c'.Leads (fun _ _ => True) (Listening fun _ _ => True) c'' →
      ∀ e ∈ c''.engine.edits.edits, ¬ batch.Holds e
  /-- An edit that is to be saved at once, and is left alone, has been sent when there is no flight
  any more. -/
  follows : ev.Hastens → ∀ e ∈ c.engine.edits.edits,
    ∀ c'', c'.Leads (fun c ev => c.Retains e.key ev ∧ ev.Foreseen)
        (Listening (Engine.Retains e.key)) c'' →
      c''.engine.closed = false → c''.engine.flight = .none → ∃ batch ∈ c''.sent, batch.Holds e
  /-- An event that is not foreseen ends the flight where it stands. -/
  breaks : ¬ ev.Foreseen → c'.engine.flight = .none ∧ c'.engine.status = c.engine.status ∧
    c'.engine.edits = c.engine.edits ∧ c'.sent = c.sent

/-- However the store fails, a flight ends well unless the load after a save fails in an unforeseen
way. Then a save may be shown on, its edits stay, and what was to be saved at once is not sent. -/
theorem ends_well_unless_unforeseen {c : Course ω} {ev : Event ω}
    (hc : c.Reachable (fun _ _ => True) (Listening fun _ _ => True))
    (hlisten : Listening (fun _ _ => True) acting) (hready : c.Ready ev)
    (hopen : (c.after acting ev).engine.closed = false) : c.EndsWell ev (c.after acting ev) := by
  have hledger : Ledger c.sent c.engine := hc.sound.ledger
  have hbefore : c.engine.closed = false := Engine.open_of_after hlisten hopen
  have hafter : (c.after acting ev).Reachable (fun _ _ => True) (Listening fun _ _ => True) :=
    hc.trans (Leads.refl.step hlisten hready trivial)
  refine ⟨?_, ?_, ?_, ?_⟩
  · exact stalled_after_iff hledger hc.aloft hlisten hready hbefore
  · rintro hforeseen batch rows load answer hflight rfl c'' hc''
    have hanswer : ∀ f, answer = .error f → f.isFetch = true := by
      rintro f rfl
      exact hforeseen
    exact (hc''.rid (Engine.reloaded_rid hledger hlisten hflight hbefore hanswer)).gone
  · intro hhastens e he c'' hc'' hopen'' hnone
    have hover : (c.after acting ev).engine.Overdue e :=
      Engine.overdue_of_hastens hhastens he hbefore
    obtain hclosed | hsent | ⟨-, hwaiting | ⟨hflying, -⟩⟩ := hc''.follows hafter hover
    · cases hopen''.symm.trans hclosed
    · exact hsent
    · cases hnone.symm.trans hwaiting
    · simp [Engine.flying, hnone] at hflying
  · exact breaks_of_unforeseen hc.sound hready hbefore

/-- A batch that is stored, and the catalog is about to be loaded again. -/
def storedOnce : List (Event Unit) :=
  [.call (.change "key" "value"), .call .flushNow, .turn .takeOff, .turn (.updated (.ok []))]

theorem reachable_storedOnce :
    ((start [] [] 1 1).run .silent storedOnce).Reachable (fun _ _ => True)
      (Listening fun _ _ => True) :=
  ⟨[], [], 1, 1, leads_run aloof_silent.listening (by decide) fun _ _ _ => trivial⟩

/-- The load after the save fails in a way that is not foreseen: the save is shown on, and its edit
stays in the buffer. An edit that was to be saved at once meanwhile is sent if the load fails as a
load may fail. -/
theorem broken_flight_stalls :
    let c : Course Unit := (start [] [] 1 1).run .silent storedOnce
    let broken : Event Unit := .turn (.reloaded (.error (.plain .runtime none)))
    let hurried := c.run .silent [.call (.change "key" "newer")]
    let failed : List (Event Unit) := [.turn (.reloaded (.error (.plain .fetch none))),
      .turn (.updated (.error (.plain .runtime none)))]
    let landed := (hurried.after .silent (.call .flushNow)).run .silent failed
    (c.after .silent broken).engine.Stalled ∧
      (c.after .silent broken).engine.edits = c.engine.edits ∧
      ∃ batch ∈ landed.sent, batch.Holds ⟨"key", "newer", 2⟩ := by
  intro c broken hurried failed landed
  have hlisten : Listening (fun _ _ => True) (Engine.silent : Engine.Acting Unit) :=
    aloof_silent.listening
  have hunforeseen : ¬ broken.Foreseen := fun hforeseen => Bool.false_ne_true hforeseen
  have hbroken : c.EndsWell broken (c.after .silent broken) :=
    ends_well_unless_unforeseen reachable_storedOnce hlisten ⟨_, _, _, rfl⟩ rfl
  have hhurried : hurried.Reachable (fun _ _ => True) (Listening fun _ _ => True) :=
    reachable_storedOnce.trans (leads_run hlisten (by decide) fun _ _ _ => trivial)
  have hflushed : hurried.EndsWell (.call .flushNow) (hurried.after .silent (.call .flushNow)) :=
    ends_well_unless_unforeseen hhurried hlisten trivial rfl
  refine ⟨hbroken.stalls.2 (.inl ⟨hunforeseen, rfl⟩), (hbroken.breaks hunforeseen).2.2.1, ?_⟩
  have hopen : landed.engine.closed = false := by decide
  have hnone : landed.engine.flight = .none := by decide
  refine hflushed.follows trivial ⟨"key", "newer", 2⟩ (by decide) landed ?_ hopen hnone
  refine leads_run (.aloof aloof_silent) (by decide) ?_
  intro _ ev hev
  simp only [failed, List.mem_cons, List.not_mem_nil, or_false] at hev
  obtain rfl | rfl := hev
  · exact ⟨trivial, rfl⟩
  · exact ⟨trivial, trivial⟩

/-- A failure of the load after a save can leave an open engine without a flight that shows the save
on, with an edit in its buffer that was stored; and it can leave one with an edit that was to be
saved at once, and was not. -/
theorem failed_load_leaves_engine_stuck :
    (∃ c : Course Unit, c.Reachable (fun _ _ => True) (Listening fun _ _ => True) ∧
      c.engine.closed = false ∧ c.engine.flight = .none ∧ c.engine.status = .saving ∧
      ∃ batch ∈ c.stored, ∃ e ∈ c.engine.edits.edits, batch.Holds e) ∧
    ∃ (c : Course Unit) (f : Failure) (e : Edit),
      c.Reachable (fun _ _ => True) (Listening fun _ _ => True) ∧
      e ∈ c.engine.edits.edits ∧ c.engine.flying = true ∧ c.engine.requested = true ∧
      c.Ready (.turn (.reloaded (.error f))) ∧
      let c' := c.after .silent (.turn (.reloaded (.error f)))
      c'.engine.closed = false ∧ c'.engine.flight = .none ∧ e ∈ c'.engine.edits.edits ∧
        c'.Unsent e := by
  have hlisten : Listening (fun _ _ => True) (Engine.silent : Engine.Acting Unit) :=
    aloof_silent.listening
  constructor
  · refine ⟨((start [] [] 1 1).run .silent storedOnce).run .silent
      [.turn (.reloaded (.error (.plain .runtime none)))], ?_, rfl, rfl, rfl, ?_⟩
    · exact reachable_storedOnce.trans (leads_run hlisten (by decide) fun _ _ _ => trivial)
    · exact ⟨⟨[("key", "value")], [1]⟩, by decide, ⟨"key", "value", 1⟩, by decide, by decide⟩
  · refine ⟨((start [] [] 1 1).run .silent storedOnce).run .silent
      [.call (.change "key" "newer"), .call .flushNow], .plain .runtime none,
      ⟨"key", "newer", 2⟩, ?_, by decide, rfl, rfl, ⟨_, _, _, rfl⟩, rfl, rfl, by decide, by decide⟩
    exact reachable_storedOnce.trans (leads_run hlisten (by decide) fun _ _ _ => trivial)

end Course

end DeferredSave
