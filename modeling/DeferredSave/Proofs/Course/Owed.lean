import DeferredSave.Proofs.Course.Ledger

/-!
# No edit is stranded

As long as listeners leave an open engine alone, and loading the catalog fails in no unforeseen way,
every edit that is in no batch is on its way into one (`Engine.Scheduled`). What the flags of the
engine owe to such an edit depends on where the flight is, and so does what the indicator may show:
it has to allow the next batch (`Owed`).
-/

namespace DeferredSave

variable {ω : Type} {acting : Engine.Acting ω} {g g' : Engine ω} {sent : List Batch}

/-- The status lets a flight take off with these edits: it is not that of a save, and if there are
edits it shows them. -/
structure Grounded (s : Status) (b : EditBuffer) : Prop where
  status : s ≠ .saving
  shows : b.isEmpty = false → s = .pending ∨ s = .error

theorem Grounded.of_isEmpty {s : Status} {b : EditBuffer} (hstatus : s ≠ .saving)
    (hempty : b.isEmpty = true) : Grounded s b := by
  refine ⟨hstatus, ?_⟩
  intro hsome
  rw [hempty] at hsome
  cases hsome

/-- From there the indicator allows what a flight shows that takes its batch. -/
theorem Grounded.allows {s : Status} {b : EditBuffer} (h : Grounded s b) :
    s.canBecome (if b.isEmpty then .idle else .saving) = true := by
  cases hempty : b.isEmpty with
  | true => exact Engine.canBecome_idle_of_ne h.status
  | false => obtain rfl | rfl := h.shows hempty <;> rfl

namespace Engine

/-- The edits will be sent: the quiet period is running, or the flight has yet to take its batch, or
it has to go round for what was edited since. -/
def Scheduled (g : Engine ω) : Prop :=
  g.quiet.armed = true ∨ g.flight = .waiting ∨
    (g.flying = true ∧ g.requested = true ∧ g.edited = true)

/-- Edits that are in no batch are noticed when the flight ends its round. -/
def Due (sent : List Batch) (g : Engine ω) : Prop :=
  ∀ e, g.Fresh sent e → g.edited = true ∧ (g.quiet.armed = true ∨ g.requested = true)

theorem isEmpty_of_mem {e : Edit} (h : e ∈ g.edits.edits) : g.edits.isEmpty = false := by
  rw [EditBuffer.isEmpty, List.isEmpty_eq_false_iff]
  exact List.ne_nil_of_mem h

theorem not_mem_of_isEmpty (h : g.edits.isEmpty = true) (e : Edit) : e ∉ g.edits.edits := by
  intro he
  rw [isEmpty_of_mem he] at h
  cases h

/-- The indicator shows the batch, which holds all edits then, or that there are edits beyond it. -/
def Backs (g : Engine ω) (batch : Batch) : Prop :=
  g.status = .pending ∨ (g.status = .saving ∧ ∀ e ∈ g.edits.edits, batch.Holds e)

/-- What is left once a batch is confirmed was edited meanwhile, and the indicator shows it. -/
theorem Backs.pending_of_left {batch : Batch} (h : g.Backs batch) (hledger : Ledger sent g)
    (hbatch : g.flight.batch? = some batch)
    (hsome : (g.edits.discardFlushed batch).1.isEmpty = false) : g.status = .pending := by
  have hknows : g.edits.Knows batch := hledger.knows batch (hledger.flight batch hbatch)
  obtain hs | ⟨-, hheld⟩ := h
  · exact hs
  · -- as long as the save itself is shown the batch holds all edits, and none would be left
    obtain ⟨e, he⟩ := List.exists_mem_of_ne_nil _ (List.isEmpty_eq_false_iff.1 hsome)
    obtain ⟨he, hnot⟩ := (EditBuffer.mem_discardFlushed hledger.orderly hknows).1 he
    exact (hnot (hheld e he)).elim

theorem Due.of_isEmpty (hempty : g.edits.isEmpty = true) : g.Due sent := by
  intro e he
  exact (not_mem_of_isEmpty hempty e he.1).elim

end Engine

/-- What an open engine owes to its edits. -/
structure Owed (sent : List Batch) (g : Engine ω) : Prop where
  ledger : Ledger sent g
  edited : ∀ e, g.Fresh sent e → g.edited = true
  scheduled : ∀ e, g.Fresh sent e → g.Scheduled
  /-- Before a batch is taken, the indicator allows it. -/
  grounded : g.flight.batch? = none → Grounded g.status g.edits
  /-- While a batch is under way, the indicator shows it, or that there are edits beyond it. -/
  aloft : ∀ batch, g.flight.batch? = some batch →
    g.status = .pending ∨ (g.status = .saving ∧ ∀ e ∈ g.edits.edits, batch.Holds e)

namespace Owed

/-- While a batch is under way, only the quiet period and the request for a further round count. -/
theorem due (h : Owed sent g) {batch : Batch} (hbatch : g.flight.batch? = some batch) :
    g.Due sent := by
  intro e he
  refine ⟨h.edited e he, ?_⟩
  rcases h.scheduled e he with harmed | hwaiting | ⟨-, hrequested, -⟩
  · exact .inl harmed
  · rw [hwaiting] at hbatch
    cases hbatch
  · exact .inr hrequested

/-- Only the edits, the flight, the flags and the indicator matter. -/
theorem of_eq (h : Owed sent g) (hedits : g'.edits = g.edits) (hflight : g'.flight = g.flight)
    (hsends : g'.sends = g.sends) (hstatus : g'.status = g.status) (hquiet : g'.quiet = g.quiet)
    (hrequested : g'.requested = g.requested) (hedited : g'.edited = g.edited) :
    Owed sent g' := by
  refine ⟨h.ledger.of_eq hedits hflight hsends, ?_, ?_, ?_, ?_⟩
  · intro e he
    rw [hedited]
    exact h.edited e (he.of_eq hedits hsends)
  · intro e he
    unfold Engine.Scheduled Engine.flying
    rw [hquiet, hflight, hrequested, hedited]
    exact h.scheduled e (he.of_eq hedits hsends)
  · intro hnone
    rw [hstatus, hedits]
    exact h.grounded (hflight ▸ hnone)
  · intro batch hbatch
    rw [hstatus, hedits]
    exact h.aloft batch (hflight ▸ hbatch)

/-- Without edits, nothing is owed but an indicator that fits. -/
theorem of_isEmpty (hledger : Ledger sent g) (hempty : g.edits.isEmpty = true)
    (hground : g.flight.batch? = none → g.status ≠ .saving)
    (haloft : g.flight.batch? ≠ none → g.status = .pending ∨ g.status = .saving) :
    Owed sent g := by
  have hnone (e : Edit) : e ∉ g.edits.edits := Engine.not_mem_of_isEmpty hempty e
  refine ⟨hledger, ?_, ?_, ?_, ?_⟩
  · intro e he
    exact (hnone e he.1).elim
  · intro e he
    exact (hnone e he.1).elim
  · intro hbatch
    exact .of_isEmpty (hground hbatch) hempty
  · intro batch hbatch
    rcases haloft (by rw [hbatch]; nofun) with hs | hs
    · exact .inl hs
    · exact .inr ⟨hs, fun e he => (hnone e he).elim⟩

/-- What is left once a batch is confirmed was edited meanwhile, and the indicator shows it. -/
theorem pending_of_left (h : Owed sent g) {batch : Batch} (hbatch : g.flight.batch? = some batch)
    (hsome : (g.edits.discardFlushed batch).1.isEmpty = false) : g.status = .pending :=
  Engine.Backs.pending_of_left (h.aloft batch hbatch) h.ledger hbatch hsome

section Flying

variable (haloof : Aloof acting)
include haloof

/-! ## The flight -/

/-- Sending a batch takes up all edits. -/
theorem sendBatch (hledger : Ledger sent g) (hground : Grounded g.status g.edits) :
    Owed sent (g.sendBatch acting) := by
  have hafter := hledger.sendBatch haloof.ledger
  rcases Engine.sendBatch_cases acting g with
    ⟨hempty, -, g', htold, heq⟩ | ⟨hsome, -, g', htold, heq⟩ | ⟨hrefused, -⟩
  · obtain ⟨notices, outbox, rfl, -⟩ := htold.of_aloof haloof
    rw [heq] at hafter ⊢
    exact of_isEmpty hafter hempty (fun _ => nofun) fun hsome => (hsome rfl).elim
  · obtain ⟨notices, outbox, rfl, -⟩ := htold.of_aloof haloof
    rw [heq] at hafter ⊢
    -- each edit of the buffer is in the batch
    have hheld : ∀ e ∈ g.edits.edits, g.edits.snapshot.Holds e :=
      fun e he => EditBuffer.snapshot_holds.2 he
    refine ⟨hafter, ?_, ?_, ?_, ?_⟩
    · intro e he
      obtain ⟨he, hnot⟩ := (Engine.fresh_send _).1 he
      exact (hnot (hheld e he.1)).elim
    · intro e he
      obtain ⟨he, hnot⟩ := (Engine.fresh_send _).1 he
      exact (hnot (hheld e he.1)).elim
    · rintro ⟨⟩
    · rintro batch ⟨⟩
      exact .inr ⟨rfl, hheld⟩
  · rw [hground.allows] at hrefused
    cases hrefused

omit haloof in
theorem land (hledger : Ledger sent g) (hground : Grounded g.status g.edits)
    (hfresh : ∀ e, g.Fresh sent e → g.edited = true ∧ g.quiet.armed = true)
    (failure? : Option Failure) : Owed sent (g.land failure?) := by
  have hbefore {e : Edit} (he : (g.land failure?).Fresh sent e) : g.Fresh sent e :=
    he.of_eq rfl (Engine.sends_land g failure?)
  refine ⟨hledger.land failure?, ?_, ?_, ?_, ?_⟩
  · intro e he
    exact (hfresh e (hbefore he)).1
  · intro e he
    exact .inl (hfresh e (hbefore he)).2
  · intro _
    exact hground
  · rintro batch ⟨⟩

/-- At the end of a round, edits that are in no batch are sent, or wait for the quiet period. -/
theorem endRound (hledger : Ledger sent g) (hground : Grounded g.status g.edits)
    (hopen : g.closed = false) (hdue : g.Due sent) : Owed sent (g.endRound acting) := by
  have hdone : Ledger sent { g with requested := false } := hledger.of_eq rfl rfl rfl
  rcases Engine.endRound_cases acting g with ⟨-, heq⟩ | ⟨hstays, heq⟩
  · rw [heq]
    exact sendBatch haloof hdone hground
  · rw [heq]
    refine land hdone hground ?_ none
    intro e he
    obtain ⟨hedited, harmed | hrequested⟩ := hdue e he
    · exact ⟨hedited, harmed⟩
    · -- such an edit would have sent the flight round
      have hagain : g.goesAround = true :=
        Engine.goesAround_iff.2 ⟨hrequested, hedited, Engine.isEmpty_of_mem he.1, hopen⟩
      rw [hagain] at hstays
      cases hstays

theorem updated (h : Owed sent g) (hopen : g.closed = false)
    (answer : Except Failure (List Setting)) : Owed sent (g.updated acting answer) := by
  cases hflight : g.flight with
  | saving batch =>
    have hbatch : g.flight.batch? = some batch := by rw [hflight]; rfl
    have hafter := h.ledger.updated haloof.ledger answer
    rcases Engine.updated_cases acting hflight answer with
      ⟨hclosed, -⟩ | ⟨-, rows, -, heq⟩ | ⟨-, f, -, ⟨hrefused, -⟩ | ⟨g', htold, heq⟩⟩
    · rw [hopen] at hclosed
      cases hclosed
    · rw [heq] at hafter ⊢
      have hbefore {e : Edit} (he : (g.reloads batch rows).Fresh sent e) : g.Fresh sent e :=
        he.of_eq rfl (Engine.sends_reloads g batch rows)
      refine ⟨hafter, ?_, ?_, ?_, ?_⟩
      · intro e he
        exact h.edited e (hbefore he)
      · intro e he
        obtain ⟨hedited, harmed | hrequested⟩ := h.due hbatch e (hbefore he)
        · exact .inl harmed
        · exact .inr (.inr ⟨rfl, hrequested, hedited⟩)
      · rintro ⟨⟩
      · rintro _ ⟨⟩
        exact h.aloft batch hbatch
    · -- the failure can always be shown
      rcases h.aloft batch hbatch with hs | ⟨hs, -⟩ <;> rw [hs] at hrefused <;> cases hrefused
    · have hledger : Ledger sent g' := htold.keeps (haloof.ledger sent) (h.ledger.event _)
      obtain ⟨notices, outbox, rfl, hasks⟩ := htold.of_aloof haloof
      rw [heq]
      -- the failure is shown, and from there a new batch may be sent
      refine endRound haloof hledger ⟨nofun, fun _ => .inr rfl⟩ hopen ?_
      intro e he
      exact h.due hbatch e (he.of_eq rfl (congrArg (List.filterMap StoreCall.batch?) hasks))
  | none | waiting | reloading => simpa [Engine.updated, hflight] using h

theorem showSaved (hledger : Ledger sent g) (hempty : g.edits.isEmpty = true)
    (hopen : g.closed = false) : Owed sent (g.showSaved acting) := by
  have hkeeps := haloof.ledger sent
  rcases Engine.showSaved_cases acting g with ⟨-, g', htold, heq⟩ | ⟨-, g', htold, heq⟩
  · have hledger' : Ledger sent { g' with shown := g'.shown.arm g'.now } :=
      (htold.keeps hkeeps (hledger.event .saved)).of_eq rfl rfl rfl
    obtain ⟨notices, outbox, rfl, -⟩ := htold.of_aloof haloof
    rw [heq]
    exact endRound haloof hledger' (.of_isEmpty nofun hempty) hopen (.of_isEmpty hempty)
  · have hledger' : Ledger sent g' := htold.keeps hkeeps (hledger.event .idle)
    obtain ⟨notices, outbox, rfl, -⟩ := htold.of_aloof haloof
    rw [heq]
    exact endRound haloof hledger' (.of_isEmpty nofun hempty) hopen (.of_isEmpty hempty)

/-- A batch of the buffer is confirmed without a mismatch, and what is left is still owed. -/
theorem confirm (h : Owed sent g) (hopen : g.closed = false) {batch : Batch}
    (hbatch : g.flight.batch? = some batch) (rows : List Setting) (installed : Bool) :
    Owed sent (g.confirm acting batch rows installed) := by
  have hknows : g.edits.Knows batch := h.ledger.knows batch (h.ledger.flight batch hbatch)
  have hledger : Ledger sent (g.confirmed batch rows installed) :=
    (h.ledger.discardFlushed batch).of_eq rfl rfl rfl
  rcases Engine.confirm_cases acting g batch rows installed with
    ⟨failure, hmismatch, -⟩ | ⟨hempty, heq⟩ | ⟨hsome, heq⟩
  · -- the batch was taken from this buffer, so it fits its revisions
    obtain ⟨dropped, hdropped⟩ := hknows.discardFlushed_ok
    rw [hdropped] at hmismatch
    cases hmismatch
  · rw [heq]
    exact showSaved haloof hledger hempty hopen
  · rw [heq]
    have hpending : g.status = .pending := h.pending_of_left hbatch hsome
    refine endRound haloof hledger ⟨?_, ?_⟩ hopen ?_
    · change g.status ≠ .saving
      rw [hpending]
      nofun
    · intro _
      exact .inl hpending
    · intro e he
      have hsent := h.ledger.flight batch hbatch
      exact h.due hbatch e ((Engine.fresh_discardFlushed h.ledger hsent).1 he)

theorem reloaded (h : Owed sent g) (hopen : g.closed = false) {answer : Except Failure Categories}
    (hanswer : ∀ f, answer = .error f → f.isFetch = true) :
    Owed sent (g.reloaded acting answer) := by
  cases hflight : g.flight with
  | reloading batch rows load =>
    have hbatch : (g.withLoad load answer).flight.batch? = some batch := by
      change g.flight.batch? = some batch
      rw [hflight]
      rfl
    have hload : Owed sent (g.withLoad load answer) := h.of_eq rfl rfl rfl rfl rfl rfl rfl
    rcases Engine.reloaded_cases acting hflight answer with
      ⟨hclosed, -⟩ | ⟨f, hf, hfetch, -⟩ | ⟨-, -, heq⟩
    · rw [hopen] at hclosed
      cases hclosed
    · -- any other failure would break the flight off with its edits unnoticed
      rw [hanswer f hf] at hfetch
      cases hfetch
    · rw [heq]
      exact hload.confirm haloof hopen hbatch rows _
  | none | waiting | saving => simpa [Engine.reloaded, hflight] using h

/-! ## Turns -/

omit haloof in
/-- A new flight takes up whatever there is. -/
theorem launch (h : Owed sent g) (hflying : g.flying = false) (quiet : Timer) :
    Owed sent { g with quiet }.launch := by
  have hnone : g.flight = .none := by simpa [Engine.flying] using hflying
  have hground : Grounded g.status g.edits := h.grounded (by rw [hnone]; rfl)
  have hledger : Ledger sent { g with quiet } := h.ledger.of_eq rfl rfl rfl
  have hbefore {e : Edit} (he : { g with quiet }.launch.Fresh sent e) : g.Fresh sent e :=
    he.of_eq rfl (Engine.sends_launch { g with quiet })
  refine ⟨hledger.launch, ?_, ?_, ?_, ?_⟩
  · intro e he
    exact h.edited e (hbefore he)
  · intro _ _
    exact .inr (.inl rfl)
  · intro _
    exact hground
  · rintro batch ⟨⟩

omit haloof in
/-- A flight that is asked to go round does without the quiet period. -/
theorem request (h : Owed sent g) (hflying : g.flying = true) (quiet : Timer) :
    Owed sent { g with quiet, requested := true } where
  ledger := h.ledger.of_eq rfl rfl rfl
  edited := h.edited
  scheduled := by
    intro e he
    exact .inr (.inr ⟨hflying, rfl, h.edited e he⟩)
  grounded := h.grounded
  aloft := h.aloft

omit haloof in
theorem quietOver (h : Owed sent g) (hopen : g.closed = false) :
    Owed sent (Engine.quietOver { g with quiet := g.quiet.cancel }) := by
  rcases Engine.quietOver_cases { g with quiet := g.quiet.cancel } with
    ⟨hclosed, -⟩ | ⟨-, hflying, heq⟩ | ⟨-, hflying, heq⟩
  · rw [hopen] at hclosed
    cases hclosed
  · rw [heq]
    exact h.request hflying g.quiet.cancel
  · rw [heq]
    exact h.launch hflying g.quiet.cancel

theorem shownOver (h : Owed sent g) :
    Owed sent (Engine.shownOver acting { g with shown := g.shown.cancel }) := by
  rcases Engine.shownOver_cases acting { g with shown := g.shown.cancel } with
    heq | ⟨-, hsaved, htold⟩
  · rw [heq]
    exact h.of_eq rfl rfl rfl rfl rfl rfl rfl
  · have hkeeps := haloof.ledger sent
    have hledger := htold.keeps hkeeps (h.ledger.of_eq rfl rfl rfl)
    obtain ⟨notices, outbox, heq, -⟩ := htold.of_aloof haloof
    -- a save is shown only when it is over, and there are no edits then
    have hstatus : g.status = .saved := hsaved
    have hbatch : g.flight.batch? = none := by
      cases hb : g.flight.batch? with
      | none => rfl
      | some batch =>
        rcases h.aloft batch hb with hs | ⟨hs, -⟩ <;> rw [hstatus] at hs <;> cases hs
    have hempty : g.edits.isEmpty = true := by
      apply Bool.of_not_eq_false
      intro hsome
      rcases (h.grounded hbatch).shows hsome with hs | hs <;> rw [hstatus] at hs <;> cases hs
    rw [heq] at hledger ⊢
    exact of_isEmpty hledger hempty (fun _ => nofun) fun hsome => (hsome hbatch).elim

/-! ## Calls -/

theorem change (h : Owed sent g) (hopen : g.closed = false) (key value : String) :
    Owed sent (g.change acting key value).1 := by
  have hafter : Ledger sent (g.change acting key value).1 :=
    (Ledger.abiding sent).change (haloof.ledger sent) trivial h.ledger
  obtain ⟨g', htold, heq⟩ := Engine.change_of_open acting hopen key value
  obtain ⟨notices, outbox, rfl, -⟩ := htold.of_aloof haloof
  rw [heq] at hafter ⊢
  refine ⟨hafter, fun _ _ => rfl, fun _ _ => .inl rfl, ?_, fun _ _ => .inl rfl⟩
  intro _
  exact ⟨nofun, fun _ => .inl rfl⟩

theorem discard (h : Owed sent g) (keys? : Option (List String)) :
    Owed sent (g.discard acting keys?).1 := by
  have hafter : Ledger sent (g.discard acting keys?).1 :=
    (Ledger.abiding sent).discard (haloof.ledger sent) trivial h.ledger
  have hsub := (g.edits.discard_sublist keys?).1
  have haloft : g.flight.batch? ≠ none → g.status = .pending ∨ g.status = .saving := by
    intro hsome
    obtain ⟨batch, hbatch⟩ := Option.ne_none_iff_exists'.1 hsome
    exact (h.aloft batch hbatch).imp_right And.left
  rcases Engine.discard_cases acting g keys? with
    heq | ⟨hempty, heq | ⟨hflying, -, g', htold, heq⟩⟩
  · rw [heq] at hafter ⊢
    refine ⟨hafter, ?_, ?_, ?_, ?_⟩
    · intro e he
      exact h.edited e (he.of_sublist hsub rfl)
    · intro e he
      exact h.scheduled e (he.of_sublist hsub rfl)
    · intro hnone
      refine ⟨(h.grounded hnone).status, fun hsome => (h.grounded hnone).shows ?_⟩
      apply Bool.eq_false_iff.2
      intro hempty
      rw [EditBuffer.isEmpty_discard g.edits keys? hempty] at hsome
      cases hsome
    · intro batch hbatch
      exact (h.aloft batch hbatch).imp_right fun hs => ⟨hs.1, fun e he => hs.2 e (hsub.subset he)⟩
  · rw [heq] at hafter ⊢
    exact of_isEmpty hafter hempty (fun hnone => (h.grounded hnone).status) haloft
  · have hnone : g.flight = .none := by simpa [Engine.flying] using hflying
    obtain ⟨notices, outbox, rfl, -⟩ := htold.of_aloof haloof
    rw [heq] at hafter ⊢
    refine of_isEmpty hafter hempty (fun _ h => by cases h) ?_
    intro hsome
    exact (hsome (show g.flight.batch? = none by rw [hnone]; rfl)).elim

omit haloof in
theorem flushNow (h : Owed sent g) : Owed sent g.flushNow.1 := by
  rcases Engine.flushNow_cases g with
    ⟨-, heq⟩ | ⟨-, hflying, heq⟩ | ⟨-, hflying, hempty, heq⟩ | ⟨-, hflying, -, heq⟩
  · rwa [heq]
  · rw [heq]
    exact h.request hflying g.quiet.cancel
  · have hnone : g.flight = .none := by simpa [Engine.flying] using hflying
    have hbatch : g.flight.batch? = none := by rw [hnone]; rfl
    rw [heq]
    exact of_isEmpty (h.ledger.of_eq rfl rfl rfl) hempty (fun _ => (h.grounded hbatch).status)
      fun hsome => (hsome hbatch).elim
  · rw [heq]
    exact h.launch hflying g.quiet.cancel

end Flying

end Owed

/-! ## In the course of events -/

/-- Loading the catalog after a save fails only as a load may fail. -/
def Event.Foreseen : Event ω → Prop
  | .turn (.reloaded (.error f)) => f.isFetch = true
  | _ => True

namespace Owed

theorem call (h : Owed sent g) (haloof : Aloof acting) (hopen : g.closed = false) {c : Call ω}
    (hopen' : (g.call acting c).closed = false) : Owed sent (g.call acting c) := by
  cases c with
  | change key value => exact h.change haloof hopen key value
  | discard keys? => exact h.discard haloof keys?
  | flushNow => exact h.flushNow
  | refresh =>
    change Owed sent g.refresh.1
    unfold Engine.refresh
    rw [if_neg (by simp [hopen])]
    exact h.of_eq rfl rfl rfl rfl rfl rfl rfl
  | close =>
    change g.close.closed = false at hopen'
    simp [Engine.close, hopen] at hopen'
  | subscribe listener reply? => exact h.of_eq rfl rfl rfl rfl rfl rfl rfl
  | unsubscribe handle =>
    exact h.of_eq rfl rfl rfl (Engine.status_unsubscribe g handle) rfl rfl rfl

theorem turn (h : Owed sent g) (haloof : Aloof acting) (hopen : g.closed = false) {t : Turn}
    (hready : t = .takeOff → g.flight = .waiting)
    (hforeseen : (Event.turn t : Event ω).Foreseen) : Owed sent (g.turn acting t) := by
  cases t with
  | quietOver => exact h.quietOver hopen
  | shownOver => exact h.shownOver haloof
  | takeOff =>
    have hground : Grounded g.status g.edits := h.grounded (by rw [hready rfl]; rfl)
    exact sendBatch haloof (h.ledger.of_eq rfl rfl rfl) hground
  | updated answer => exact h.updated haloof hopen answer
  | reloaded answer =>
    refine h.reloaded haloof hopen ?_
    rintro f rfl
    exact hforeseen
  | loaded load answer =>
    rw [Engine.turn_loaded]
    exact h.of_eq rfl rfl rfl rfl rfl rfl rfl

/-- What the outbox sends is sent once the outbox is emptied. -/
theorem drained (h : Owed sent g) : Owed (sent ++ g.sends) { g with outbox := [] } where
  ledger := h.ledger.drained
  edited := fun e he => h.edited e (Engine.fresh_drained.1 he)
  scheduled := fun e he => h.scheduled e (Engine.fresh_drained.1 he)
  grounded := h.grounded
  aloft := h.aloft

end Owed

namespace Course

theorem Reachable.owed {c : Course ω} (h : c.Reachable (fun _ => Event.Foreseen) Aloof)
    (hopen : c.engine.closed = false) : Owed c.sent c.engine := by
  obtain ⟨metas, rules, quietPeriod, shownFor, hleads⟩ := h
  induction hleads with
  | refl =>
    exact Owed.of_isEmpty (sound_start metas rules quietPeriod shownFor).ledger rfl
      (fun _ => nofun) fun hsome => (hsome rfl).elim
  | @step c acting ev _ haloof hready hforeseen ih =>
    have hbefore : c.engine.closed = false := Engine.open_of_after haloof.listening hopen
    rw [sent_after]
    cases ev with
    | call call => exact ((ih hbefore).call haloof hbefore hopen).drained
    | turn t =>
      refine ((ih hbefore).turn haloof hbefore ?_ hforeseen).drained
      rintro rfl
      exact hready
    | wait seconds =>
      have hwait : Owed c.sent { c.engine with now := c.engine.now + seconds } :=
        (ih hbefore).of_eq rfl rfl rfl rfl rfl rfl rfl
      exact hwait.drained

/-- Every edit of an open engine that is in no batch yet is going to be sent. -/
theorem unsent_edit_is_scheduled {c : Course ω} (hc : c.Reachable (fun _ => Event.Foreseen) Aloof)
    (hopen : c.engine.closed = false) {e : Edit} (he : e ∈ c.engine.edits.edits)
    (hunsent : c.Unsent e) : c.engine.Scheduled := by
  have hsound : c.Sound := (hc.mono (fun _ _ => id) fun _ => Aloof.listening).sound
  exact (hc.owed hopen).scheduled e (hsound.fresh_iff.2 ⟨he, hunsent⟩)

/-- An edit that is made while a batch is under way, and saved at once, waits for the flight to go
round. -/
theorem edit_during_save_is_scheduled :
    let c : Course Unit := (start [] [] 1 1).run .silent
      [.call (.change "key" "value"), .call .flushNow, .turn .takeOff,
        .call (.change "key" "newer"), .call .flushNow]
    c.engine.quiet.armed = false ∧ c.engine.flight ≠ .waiting ∧ c.engine.Scheduled := by
  intro c
  have hc : c.Reachable (fun _ => Event.Foreseen) Aloof := ⟨[], [], 1, 1,
    leads_run aloof_silent (by decide) (by
      intro _ ev hev
      simp only [List.mem_cons, List.not_mem_nil, or_false] at hev
      rcases hev with rfl | rfl | rfl | rfl | rfl <;> trivial)⟩
  have hunsent : c.Unsent ⟨"key", "newer", 2⟩ := by decide
  exact ⟨rfl, nofun, unsent_edit_is_scheduled hc rfl (by decide) hunsent⟩

end Course

end DeferredSave
