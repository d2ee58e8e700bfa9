import DeferredSave.Proofs.Session.Ending

/-!
# How a service ends

When a service ends it saves what is left, then it closes the engine, and then the store. It gets
as far as that exactly if there is nothing to save, or if the flight that it waits for is neither
broken off by a load after a save nor refused because an earlier one was (`Session.shutDown_ends`).
Otherwise the engine and the store stay open. In any case it ends soon: as long as it goes on there
is one thing to wait for, and it has waited for five at most.
-/

namespace DeferredSave

namespace Engine

variable {ω : Type} {g : Engine ω}

/-- An open engine that is asked to save some edits has a flight. -/
theorem flushNow_flies (hopen : g.closed = false) (hedited : g.edits.isEmpty = false) :
    ∃ flight requested effects,
      g.flushNow = ({ g with quiet := g.quiet.cancel, flight, requested,
                             outbox := g.outbox ++ effects }, .ok true) ∧
        flight ≠ .none ∧ (effects = [] ∨ effects = [.takeOff]) := by
  unfold flushNow
  rw [if_neg (by simp [hopen])]
  dsimp only
  split
  · rename_i hflying
    refine ⟨g.flight, true, [], ?_, ?_, .inl rfl⟩
    · rw [List.append_nil]
    · rintro hnone
      simp [flying, hnone] at hflying
  · rw [if_neg (by simp [hedited])]
    have hwaiting : (.waiting : Flight) ≠ .none := by simp
    exact ⟨.waiting, g.requested, [.takeOff], rfl, hwaiting, .inr rfl⟩

theorem left_le (g : Engine ω) : g.left ≤ 4 := by
  have hfurther : g.further ≤ 2 := by
    unfold further
    split <;> decide
  unfold left
  split <;> omega

end Engine

namespace Session

variable {s s₀ s' : Session} {c : Course Step} {jobs rest : List Job}

/-! ## The start of the end -/

/-- The service is up. What is under way is not done for it, and no listener does anything. -/
structure AtRest (s : Session) : Prop where
  up : s.stage = .up
  passive : s.engine.Passive
  others : ∀ i ∈ s.items, i.Other
  nobody : .service ∉ s.waiting

theorem AtRest.owns (h : s.AtRest) : Owns [] s := ⟨s.items, .refl _, h.others⟩

/-- A service without edits ends at once. -/
theorem closeAll_phase (h : s.AtRest) (hs : Standing s s c)
    (hempty : s.engine.edits.isEmpty = true) :
    ∃ c', Standing s s.closeAll c' ∧ Phase s [] s.closeAll c' :=
  closeAll_over hs rfl (.inl hempty) (fun e he => (Engine.not_mem_of_isEmpty hempty e he).elim)
    (.inl hempty) h.owns h.nobody

/-- A service whose engine is closed fails at once. -/
theorem refused_phase (h : s.AtRest) (hs : Standing s s c) (hclosed : s.engine.closed = true)
    (hedited : s.engine.edits.isEmpty = false) :
    Phase s [] { s with stage := .ended (some .engineClosed) } c := by
  refine .ended (some .engineClosed) ?_ h.owns rfl h.nobody
  have hengine : c.engine.closed = true := hs.follows.engine ▸ hclosed
  refine ⟨.inr hengine, .inr (.inl hclosed), nofun, fun _ => ⟨hengine.trans hclosed.symm, rfl⟩,
    iff_of_false nofun ?_⟩
  rintro (hempty | ⟨hopen, -⟩)
  · cases hempty.symm.trans hedited
  · cases hopen.symm.trans hclosed

/-- An open engine that is asked to save some edits is on its way to save all of them. -/
theorem flushNow_flying (hopen : c.engine.closed = false)
    (hedited : c.engine.edits.isEmpty = false) :
    Flying c.engine [] (c.after acting (.call .flushNow)) := by
  obtain ⟨flight, requested, effects, hflush, hflies, -⟩ :=
    Engine.flushNow_flies hopen hedited
  have hafter : (c.after acting (.call .flushNow)).engine =
      { c.engine with quiet := c.engine.quiet.cancel, flight, requested, outbox := [] } := by
    change { c.engine.flushNow.1 with outbox := [] } = _
    rw [hflush]
  refine ⟨hedited, hopen, ?_, ?_, ?_, fun e he => ?_, List.forall_mem_nil _, ?_, ?_⟩
  · rw [hafter]
    exact hopen
  · rw [hafter]
    rfl
  · rw [hafter]
    exact hflies
  · have hhastens : (Event.call .flushNow : Event Step).Hastens := trivial
    have hoverdue : (c.engine.after acting (.call .flushNow)).Overdue e :=
      Engine.overdue_of_hastens hhastens he hopen
    exact .inr hoverdue
  · have hiff := Engine.call_stalled_iff (c := .flushNow) acting_listening hopen
    exact hiff.trans (and_iff_left id)
  · exact (Nat.zero_add _).symm ▸ Engine.left_le _

/-- It asks for a flight, unless one is under way already. -/
theorem flushNow_extends (houtbox : s.engine.outbox = []) (hopen : s.engine.closed = false)
    (hedited : s.engine.edits.isEmpty = false) :
    Extends { s with engine := { s.engine.flushNow.1 with outbox := [] } }
      (s.withEngine s.engine.flushNow.1) := by
  obtain ⟨flight, requested, effects, hflush, -, heffects⟩ :=
    Engine.flushNow_flies hopen hedited
  rw [houtbox, List.nil_append] at hflush
  rw [hflush]
  obtain rfl | rfl := heffects
  · rw [s.withEngine_of_nothing rfl]
    exact extends_refl _
  · rw [s.withEngine_of_effect rfl]
    exact extends_push _ (j := .takeOff) trivial

theorem startFlush_eq (asker : Asker) (hopen : s.engine.closed = false)
    (hedited : s.engine.edits.isEmpty = false) :
    s.startFlush asker =
      { s.withEngine s.engine.flushNow.1 with
        waiting := (s.withEngine s.engine.flushNow.1).waiting ++ [asker] } := by
  obtain ⟨flight, requested, effects, hflush, -⟩ := Engine.flushNow_flies hopen hedited
  unfold startFlush
  rw [hflush]

/-- A service with edits waits for a flight. -/
theorem startFlush_phase (h : s.AtRest) (hs : Standing s s c) (hopen : s.engine.closed = false)
    (hedited : s.engine.edits.isEmpty = false) :
    ∃ c', Standing s (s.startFlush .service) c' ∧ Phase s [] (s.startFlush .service) c' := by
  have hsound : c.Sound := hs.reach.sound
  have hengine := hs.follows.engine
  have hflying : Flying s.engine [] (c.after acting (.call .flushNow)) := by
    rw [hengine] at hopen hedited ⊢
    exact flushNow_flying hopen hedited
  have hextends := flushNow_extends (hengine ▸ hsound.said) hopen hedited
  have howns : Owns [] { s with engine := { s.engine.flushNow.1 with outbox := [] } } := h.owns
  have hpassive : (c.after acting (.call .flushNow)).engine.Passive := by
    obtain ⟨flight, requested, effects, hflush, -⟩ := Engine.flushNow_flies hopen hedited
    change Engine.Passive { c.engine.flushNow.1 with outbox := [] }
    rw [← hengine, hflush]
    exact h.passive
  have hfollows := call_follows hs.follows hsound .flushNow (.inl nofun)
  have howns := howns.of_extends hextends
  obtain ⟨items, batches, -, hadds⟩ := hextends
  rw [startFlush_eq .service hopen hedited]
  refine ⟨c.after acting (.call .flushNow),
    ⟨hfollows.of_eq rfl rfl rfl, hs.reach.trans (leads_call c .flushNow), hpassive,
      hadds.closable⟩,
    .flying hflying howns (hadds.stage.trans h.up) hadds.storeClosed ?_⟩
  change (_ ++ [Asker.service]).count .service = 1
  rw [hadds.waiting, List.count_append, List.count_eq_zero.2 h.nobody]
  rfl

/-- The service that is told to end is in one of the phases of its end. -/
theorem shutDown_phase (h : s.AtRest) (hs : Standing s s c) :
    ∃ c', Standing s (s.turn .shutDown) c' ∧ Phase s [] (s.turn .shutDown) c' := by
  have hturn : s.turn .shutDown =
      if s.engine.edits.isEmpty then s.closeAll else s.startFlush .service := rfl
  rw [hturn]
  cases hedited : s.engine.edits.isEmpty with
  | true => exact closeAll_phase h hs hedited
  | false =>
    cases hopen : s.engine.closed with
    | false => exact startFlush_phase h hs hopen hedited
    | true =>
      -- a closed engine refuses to save, and the service ends with that
      have hself : s.withEngine s.engine = s :=
        s.withEngine_self (hs.follows.engine ▸ hs.reach.sound.said)
      have hstart : s.startFlush .service = { s with stage := .ended (some .engineClosed) } := by
        unfold startFlush Engine.flushNow
        rw [if_pos hopen]
        dsimp only
        rw [hself]
        rfl
      rw [if_neg nofun, hstart]
      exact ⟨c, ⟨hs.follows.of_eq rfl rfl rfl, hs.reach, hs.passive, rfl⟩,
        refused_phase h hs hopen hedited⟩

/-! ## Runs -/

/-- The phase depends on little of the session. -/
theorem Phase.of_owns (h : Phase s₀ jobs s c) (howns : ∀ own, Owns own s → Owns own s')
    (hstage : s'.stage = s.stage) (hstore : s'.storeClosed = s.storeClosed)
    (hwaiting : s'.waiting = s.waiting) : Phase s₀ jobs s' c := by
  cases h with
  | flying hflying hown hup hclosed hcount =>
    exact .flying hflying (howns _ hown) (hstage.trans hup) (hstore.trans hclosed)
      (hwaiting ▸ hcount)
  | notified hlanded hown hup hclosed hnobody hcount =>
    exact .notified hlanded (howns _ hown) (hstage.trans hup) (hstore.trans hclosed)
      (hwaiting ▸ hnobody) hcount
  | woken hlanded hown hup hclosed hnobody hcount =>
    exact .woken hlanded (howns _ hown) (hstage.trans hup) (hstore.trans hclosed)
      (hwaiting ▸ hnobody) hcount
  | ended failure? hover hown hended hnobody =>
    exact .ended failure? (hstore ▸ hover) (howns _ hown) (hstage.trans hended) (hwaiting ▸ hnobody)

/-- The engine does something else meanwhile. -/
theorem Phase.rests {c' : Course Step} (h : Phase s₀ jobs s c)
    (hleads : c.Leads (fun _ ev => ev.Foreseen ∧ ∀ call, ev ≠ .call call) (· = .silent) c')
    (hrests : c.engine.Rests c'.engine)
    (hc : c.Reachable (fun _ _ => True) (Listening fun _ _ => True)) : Phase s₀ jobs s c' := by
  cases h with
  | flying hflying hown hup hstore hcount =>
    exact .flying (hflying.rests hleads hrests hc) hown hup hstore hcount
  | notified hlanded hown hup hstore hnobody hcount =>
    exact .notified (hlanded.rests hleads hrests) hown hup hstore hnobody hcount
  | woken hlanded hown hup hstore hnobody hcount =>
    exact .woken (hlanded.rests hleads hrests) hown hup hstore hnobody hcount
  | ended failure? hover hown hended hnobody =>
    exact .ended failure? (hover.calm hleads hrests.toCalm hrests.flight.trans) hown hended hnobody

/-- A service that was told to end is in one of the phases of its end as long as nothing comes from
outside. -/
theorem Runs.phase (h : s.Runs (fun _ => False) jobs s')
    (hs : ∃ c, Standing s₀ s c ∧ Phase s₀ [] s c) :
    ∃ c, Standing s₀ s' c ∧ Phase s₀ jobs s' c := by
  -- only jobs change the phase; rounds, answers of the store and time leave it as it is
  induction h with
  | refl => exact hs
  | come j _ hj => exact hj.elim
  | turn _ hround ih =>
    obtain ⟨c, hstanding, hphase⟩ := ih
    exact hphase.turn hstanding hround
  | next _ hround ih =>
    obtain ⟨c, hstanding, hphase⟩ := ih
    exact ⟨c, { hstanding with follows := hstanding.follows.next hround },
      hphase.of_owns (fun _ hown => hown.next hround) rfl rfl rfl⟩
  | @answer jobs s' call a _ hheld hfits ih =>
    obtain ⟨c, hstanding, hphase⟩ := ih
    have haside := aside_callOver { s' with held := s'.held.erase call } call.caller.kind
    exact ⟨c, ⟨hstanding.follows.answer hheld hfits, hstanding.reach, hstanding.passive,
        haside.closable.trans hstanding.closable⟩,
      hphase.of_owns (fun _ hown => hown.answer hheld hfits) haside.stage haside.storeClosed
        haside.waiting⟩
  | @wait jobs s' now _ hnow ih =>
    obtain ⟨c, hstanding, hphase⟩ := ih
    obtain ⟨hready, hfollows⟩ := hstanding.follows.wait hstanding.reach.sound hnow
    have hrests : c.engine.Rests (c.engine.after .silent (.wait (now - s'.now))) :=
      c.rests_after nofun rfl nofun
    have hsame := c.engine_after_of_rests hrests hstanding.reach.sound.said
    have hleads : c.Leads (fun _ ev => ev.Foreseen ∧ ∀ call, ev ≠ .call call) (· = .silent)
        (c.after .silent (.wait (now - s'.now))) :=
      Course.Leads.refl.step rfl hready ⟨trivial, nofun⟩
    rw [← hsame] at hrests
    exact ⟨_, ⟨hfollows, hstanding.reach.trans (leads_event hready),
        hrests.passive hstanding.passive, hstanding.closable⟩,
      (hphase.rests hleads hrests hstanding.reach).of_owns (fun _ hown => hown) rfl rfl rfl⟩

/-! ## How it ends -/

/-- The service that was told to end in `s` has come to `s'` by some jobs. -/
structure Ending (s : Session) (jobs : List Job) (s' : Session) : Prop where
  /-- As long as it goes on it waits for a job or for an answer of the store that is to come, and it
  has waited for five of them at most. -/
  goesOn : s'.stage = .up →
    (∃ i ∈ s'.items, i.awaited = true) ∧ jobs.countP Job.awaited ≤ 5
  /-- If it ends well, all is closed, and each edit was sent. -/
  closes : s'.stage = .ended none → s'.engine.closed = true ∧
    (∃ time, s'.storeClosed = s.storeClosed ++ if s.closable then [time] else []) ∧
    ∀ e ∈ s.engine.edits.edits, ∃ batch ∈ s'.sent, batch.Holds e
  /-- If it fails, nothing is closed. -/
  fails : ∀ f, s'.stage = .ended (some f) →
    s'.engine.closed = s.engine.closed ∧ s'.storeClosed = s.storeClosed
  /-- When it is over, it has ended well unless a flight was refused or broken off. -/
  ends_iff : s'.stage ≠ .up → (s'.stage = .ended none ↔ s.engine.edits.isEmpty = true ∨
    (s.engine.closed = false ∧ ¬ s.engine.Stalled ∧ ∀ j ∈ jobs, ¬ j.Breaks))

/-- What a flight waits for is under way. -/
theorem Follows.awaited (h : Follows [] s c) (hflies : c.engine.flight ≠ .none) :
    ∃ i ∈ s.items, i.awaited = true := by
  -- a flight has one errand, and what that waits for is one of the things under way
  obtain ⟨errand, herrand⟩ : ∃ errand, c.engine.flight.errand? = some errand := by
    cases hflight : c.engine.flight with
    | none => exact (hflies hflight).elim
    | waiting | saving | reloading => exact ⟨_, rfl⟩
  have hmem : errand.pending ∈ c.pending := by
    unfold Course.pending
    rw [herrand]
    exact List.mem_cons_self
  obtain ⟨i, hi, hpending⟩ := List.mem_filterMap.1 (h.pending.symm.subset hmem)
  exact ⟨i, hi, Item.awaited_of_pending hpending (by cases errand <;> rfl)⟩

theorem Owns.awaited {j : Job} (h : Owns [j] s) (hj : j.awaited = true) :
    ∃ i ∈ s.items, i.awaited = true := by
  obtain ⟨others, hperm, -⟩ := h
  exact ⟨.job j, hperm.symm.subset List.mem_cons_self, hj⟩

/-- As long as it is not over, the end goes on. -/
theorem ending_of_up (hup : s'.stage = .up) (hitem : ∃ i ∈ s'.items, i.awaited = true)
    (hcount : jobs.countP Job.awaited ≤ 5) : Ending s jobs s' := by
  refine ⟨fun _ => ⟨hitem, hcount⟩, fun hended => ?_, fun f hended => ?_, fun h => (h hup).elim⟩ <;>
    cases hup.symm.trans hended

theorem Phase.ending (h : Phase s jobs s' c) (hs : Standing s s' c) : Ending s jobs s' := by
  cases h with
  | flying hflying _ hup =>
    have hsoon := hflying.soon
    exact ending_of_up hup (hs.follows.awaited hflying.flies) (by omega)
  | notified _ hown hup _ _ hcount => exact ending_of_up hup (hown.awaited rfl) (by omega)
  | woken _ hown hup _ _ hcount => exact ending_of_up hup (hown.awaited rfl) hcount
  | ended failure? hover _ hended =>
    have hengine := hs.follows.engine
    have hsent := hs.follows.sent
    refine ⟨fun hup => ?_, fun hwell => ?_, fun f hfailed => ?_, fun _ => ?_⟩
    · cases hup.symm.trans hended
    · cases hended.symm.trans hwell
      rw [hengine, hsent]
      exact hover.closes rfl
    · cases hended.symm.trans hfailed
      rw [hengine]
      exact hover.fails nofun
    · rw [hended, ← hover.none_iff]
      simp

/-- How a service ends that is told so while what is under way is not done for it, and while no
listener does anything, if nothing else comes from outside. -/
theorem shutDown_ends {past : List Job} (hfresh : s₀.Fresh) (hpast : s₀.Runs Job.Outside past s)
    (hround : s.round = .shutDown :: rest) (hrest : AtRest { s with round := rest })
    (hend : ({ s with round := rest }.turn .shutDown).Runs (fun _ => False) jobs s') :
    Ending { s with round := rest } jobs s' := by
  -- the course of the engine up to the end carries over what holds of all engines
  obtain ⟨c, hreach, hfollows⟩ := hpast.follows (fun _ => id) hfresh
  have hstanding : Standing { s with round := rest } { s with round := rest } c :=
    ⟨hfollows.turn hround, hreach, hfollows.engine ▸ hrest.passive, rfl⟩
  obtain ⟨c', hs, hphase⟩ := hend.phase (shutDown_phase hrest hstanding)
  exact hphase.ending hs

/-! ## A service that ends during a save -/

/-- A session over a store that can be closed and has one setting. -/
def smallSession : Session := { new [("general", [("k", "v")])] [] [] 1 1 with closable := true }

/-- That session with a batch under way and a newer edit, when its service is told to end. -/
def savingSession : Session :=
  let s := (smallSession.push .startUp).settle 10
  let s := s.push (.step (.store (some { gate := true }) (some { gate := true })))
  let s := ((s.push (.step (.change "k" "w"))).push (.step .flushNow)).settle 20
  let s := (s.push (.step (.change "k" "x"))).settle 10
  (s.push .shutDown).nextRound

theorem savingSession_runs : ∃ past, smallSession.Runs Job.Outside past savingSession := by
  have h : smallSession.Runs Job.Outside [] smallSession := .refl
  obtain ⟨_, h⟩ := (h.come .startUp trivial).settled 10
  obtain ⟨_, h⟩ := (((h.come (.step _) trivial).come (.step _) trivial).come
    (.step _) trivial).settled 20
  obtain ⟨_, h⟩ := (h.come (.step _) trivial).settled 10
  exact ⟨_, (h.come .shutDown trivial).next (List.isEmpty_iff.1 (by decide +kernel))⟩

theorem savingSession_atRest : AtRest { savingSession with round := [] } where
  up := by decide +kernel
  passive := by
    have hlisteners : savingSession.engine.board.listeners = [] :=
      List.isEmpty_iff.1 (by decide +kernel)
    intro listener hlistener
    cases hlisteners ▸ hlistener
  others := by
    have hitems : { savingSession with round := [] }.items =
        [.call (.save ⟨[("k", "w")], [1]⟩)] := by with_unfolding_all rfl
    intro i hi
    cases List.mem_singleton.1 (hitems ▸ hi)
    trivial
  nobody := by decide +kernel

/-- The session after that, when the store has given some answers. -/
def endedSession (answers : List (HeldCall × StoreAnswer)) : Session :=
  answers.foldl (fun s (call, a) => (s.answered call a).settle 20)
    ({ savingSession with round := [] }.turn .shutDown)

/-- The first batch fails, and the flight goes round for the newer edit. -/
theorem service_ends_after_failed_batch :
    let row : Setting := ⟨"k", "x", none, .epoch, some "local-admin"⟩
    let s := endedSession [
      (⟨0, .save ⟨[("k", "w")], [1]⟩⟩, .saved (.error (.plain .runtime none))),
      (⟨1, .save ⟨[("k", "x")], [2]⟩⟩, .saved (.ok [row])),
      (⟨1, .reload⟩, .reloaded (.ok [("general", [row])]))]
    s.stage = .ended none ∧ s.engine.closed = true ∧ (∃ time, s.storeClosed = [time]) ∧
      ∀ e ∈ savingSession.engine.edits.edits, ∃ batch ∈ s.sent, batch.Holds e := by
  intro row s
  obtain ⟨past, hpast⟩ := savingSession_runs
  obtain ⟨jobs, hend⟩ : ∃ jobs,
      Runs (fun _ => False) ({ savingSession with round := [] }.turn .shutDown) jobs s := by
    -- each answer is followed by all the jobs that it gives rise to
    have h : Runs (fun _ => False) ({ savingSession with round := [] }.turn .shutDown) []
      ({ savingSession with round := [] }.turn .shutDown) := .refl
    obtain ⟨_, h⟩ := (h.answer ⟨0, .save ⟨[("k", "w")], [1]⟩⟩
      (.saved (.error (.plain .runtime none))) (by decide +kernel) trivial).settled 20
    obtain ⟨_, h⟩ := (h.answer ⟨1, .save ⟨[("k", "x")], [2]⟩⟩
      (.saved (.ok [row])) (by decide +kernel) trivial).settled 20
    obtain ⟨_, h⟩ := (h.answer ⟨1, .reload⟩ (.reloaded (.ok [("general", [row])]))
      (by decide +kernel) trivial).settled 20
    exact ⟨_, h⟩
  have hstage : s.stage = .ended none := by decide +kernel
  have hround : savingSession.round = [.shutDown] := by with_unfolding_all rfl
  have hending : Ending { savingSession with round := [] } jobs s :=
    shutDown_ends ⟨_, _, _, _, _, _, rfl⟩ hpast hround savingSession_atRest hend
  obtain ⟨hclosed, ⟨time, hstore⟩, hsent⟩ := hending.closes hstage
  have hempty : savingSession.storeClosed = [] := by decide +kernel
  have hclosable : savingSession.closable = true := by decide +kernel
  refine ⟨hstage, hclosed, ⟨time, hstore.trans ?_⟩, hsent⟩
  simp [hempty, hclosable]

/-- If the load after the save fails in a way that is not foreseen, neither the engine nor the store
is closed, and an edit that was made while the batch was under way is not sent. -/
theorem failed_load_keeps_all_open :
    let broken : Failure := .plain .runtime none
    let edited := smallSession.play
      [.store none (some { failure? := some broken }), .change "k" "w"]
    let ended := endedSession [
      (⟨0, .save ⟨[("k", "w")], [1]⟩⟩, .saved (.ok [])),
      (⟨1, .reload⟩, .reloaded (.error broken))]
    (edited.shutDown.stage = .ended (some broken) ∧ edited.shutDown.engine.closed = false ∧
        edited.shutDown.storeClosed = []) ∧
      ended.stage = .ended (some broken) ∧ ended.engine.closed = false ∧ ended.storeClosed = [] ∧
        ∃ e ∈ savingSession.engine.edits.edits, ∀ batch ∈ ended.sent, ¬ batch.Holds e := by
  decide +kernel

end Session

end DeferredSave
