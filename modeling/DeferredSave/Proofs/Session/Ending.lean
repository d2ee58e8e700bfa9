import DeferredSave.Proofs.Course.AtOnce
import DeferredSave.Proofs.Session.Unattended

/-!
# The end of a session

The end of a service that has something to save goes through three phases: the flight is under way,
the service is told that it is over, the service has ended. Where nothing else comes from outside,
each job keeps the phase or takes it to the next one (`Session.Phase.turn`).
-/

namespace DeferredSave.Session

variable {s s₀ s' : Session} {c c' : Course Step} {j : Job} {jobs rest : List Job}

/-! ## What the service waits for -/

/-- The service waits for it when it ends. -/
def Job.awaited : Job → Bool
  | notify .service _ | wake .service _ => true
  | j => j.pending?.any Pending.ofFlight

def Item.awaited : Item → Bool
  | job j => j.awaited
  | call caller => caller.pending.ofFlight

theorem Job.Other.awaited (h : j.Other) : j.awaited = j.pending?.any Pending.ofFlight := by
  cases j with
  | notify asker failure? | wake asker failure? => cases asker <;> first | rfl | exact (h rfl).elim
  | step | begin | takeOff | expiry | released | answer | startUp | shutDown => rfl

theorem Item.awaited_of_pending {i : Item} {p : Pending} (h : i.pending? = some p)
    (hp : p.ofFlight = true) : i.awaited = true := by
  cases i with
  | call caller =>
    cases h
    exact hp
  | job j =>
    have hj : j.pending?.any Pending.ofFlight = true := by
      have hj : j.pending? = some p := h
      rw [hj]
      exact hp
    change j.awaited = true
    unfold Job.awaited
    split <;> first | rfl | exact hj

/-- Some jobs are done for the service as a whole, and all else is not. -/
def Owns (own : List Job) (s : Session) : Prop :=
  ∃ others, s.items.Perm (own.map .job ++ others) ∧ ∀ i ∈ others, i.Other

theorem Owns.of_adds {own : List Job} {items : List Item} {batches : List Batch} (new : List Job)
    (h : Owns own s) (hadds : Adds items batches s s')
    (hitems : ∃ others, items.Perm (new.map .job ++ others) ∧ ∀ i ∈ others, i.Other) :
    Owns (new ++ own) s' := by
  obtain ⟨others, hperm, hothers⟩ := h
  obtain ⟨others', hperm', hothers'⟩ := hitems
  refine ⟨others' ++ others, ?_, fun i hi => (List.mem_append.1 hi).elim (hothers' i) (hothers i)⟩
  rw [List.map_append]
  refine hadds.items.trans ((hperm'.append hperm).trans ?_)
  rw [List.append_assoc, List.append_assoc]
  refine List.Perm.append_left _ ?_
  rw [← List.append_assoc, ← List.append_assoc]
  exact List.perm_append_comm.append_right _

theorem Owns.of_extends {own : List Job} (h : Owns own s) (hextends : Extends s s') :
    Owns own s' := by
  obtain ⟨items, batches, hothers, hadds⟩ := hextends
  exact h.of_adds [] hadds ⟨items, .refl _, hothers⟩

/-- The next job is one of others, or one that is done for the service. -/
theorem Owns.turn {own : List Job} (h : Owns own s) (hround : s.round = j :: rest) :
    (j.Other ∧ Owns own { s with round := rest }) ∨
      ∃ before after, own = before ++ j :: after ∧
        Owns (before ++ after) { s with round := rest } := by
  obtain ⟨others, hperm, hothers⟩ := h
  rw [items_round hround] at hperm
  -- it is one of all, and these are the service's own and the others
  obtain hmem | hmem := List.mem_append.1 (hperm.subset List.mem_cons_self)
  · obtain ⟨j', hj', heq⟩ := List.mem_map.1 hmem
    cases heq
    obtain ⟨before, after, rfl⟩ := List.append_of_mem hj'
    refine .inr ⟨before, after, rfl, others, ?_, hothers⟩
    rw [List.map_append, List.map_cons, List.append_assoc, List.cons_append] at hperm
    rw [List.map_append, List.append_assoc]
    exact (List.perm_cons _).1 (hperm.trans List.perm_middle)
  · obtain ⟨before, after, rfl⟩ := List.append_of_mem hmem
    have hsub := (List.sublist_cons_self (.job j) after).append_left before
    refine .inl ⟨hothers _ hmem, before ++ after, ?_, fun i hi => hothers i (hsub.subset hi)⟩
    rw [← List.append_assoc] at hperm ⊢
    exact (List.perm_cons _).1 (hperm.trans List.perm_middle)

theorem Owns.next {own : List Job} (h : Owns own s) (hround : s.round = []) :
    Owns own s.nextRound := by
  obtain ⟨others, hperm, hothers⟩ := h
  refine ⟨s.dueJobs.map .job ++ others, ?_, fun i hi => ?_⟩
  · refine (items_next hround).trans ((hperm.append_left _).trans ?_)
    rw [← List.append_assoc, ← List.append_assoc]
    exact List.perm_append_comm.append_right _
  · obtain hi | hi := List.mem_append.1 hi
    · obtain ⟨j, hj, rfl⟩ := List.mem_map.1 hi
      obtain ⟨name, a, -, rfl⟩ := mem_dueJobs hj
      trivial
    · exact hothers i hi

theorem Owns.answer {own : List Job} (h : Owns own s) {call : HeldCall} (hheld : call ∈ s.held)
    {a : StoreAnswer} (hfits : a.Fits call.caller) : Owns own (s.answered call a) := by
  obtain ⟨others, hperm, hothers⟩ := h
  obtain ⟨left, hbefore, hafter⟩ := items_answer hheld a
  have hcall := hbefore.symm.trans hperm
  -- a held call is none of the jobs that are done for the service
  have hmem : .call call.caller ∈ others := by
    obtain hmem | hmem := List.mem_append.1 (hcall.subset List.mem_cons_self)
    · obtain ⟨j, -, heq⟩ := List.mem_map.1 hmem
      cases heq
    · exact hmem
  obtain ⟨before, after, rfl⟩ := List.append_of_mem hmem
  refine ⟨.job (.answer a) :: (before ++ after), ?_, fun i hi => ?_⟩
  · rw [← List.append_assoc] at hcall
    have hleft := (List.perm_cons _).1 (hcall.trans List.perm_middle)
    refine hafter.trans ((hleft.cons _).trans ?_)
    rw [List.append_assoc]
    exact List.perm_middle.symm
  · obtain rfl | hi := List.mem_cons.1 hi
    · exact (Item.Stands.answered hfits).other (hothers _ hmem)
    · exact hothers i (((List.sublist_cons_self _ _).append_left before).subset hi)

/-! ## Where the end of the service is -/

/-- The flight that the service waits for is under way. The engine was `g₀` when the service was
told to end. -/
structure Flying (g₀ : Engine Step) (jobs : List Job) (c : Course Step) : Prop where
  edited : g₀.edits.isEmpty = false
  wasOpen : g₀.closed = false
  isOpen : c.engine.closed = false
  quiet : c.engine.quiet.armed = false
  flies : c.engine.flight ≠ .none
  covered : ∀ e ∈ g₀.edits.edits, (∃ batch ∈ c.sent, batch.Holds e) ∨ c.engine.Overdue e
  unbroken : ∀ j ∈ jobs, ¬ j.Breaks
  stalled : c.engine.Stalled ↔ g₀.Stalled
  soon : jobs.countP Job.awaited + c.engine.left ≤ 4

/-- That flight is over. -/
structure Landed (g₀ : Engine Step) (jobs : List Job) (failure? : Option Failure)
    (c : Course Step) : Prop where
  edited : g₀.edits.isEmpty = false
  wasOpen : g₀.closed = false
  isOpen : c.engine.closed = false
  quiet : c.engine.quiet.armed = false
  landed : c.engine.flight = .none
  covered : failure? = none → ∀ e ∈ g₀.edits.edits, ∃ batch ∈ c.sent, batch.Holds e
  none_iff : failure? = none ↔ ¬ g₀.Stalled ∧ ∀ j ∈ jobs, ¬ j.Breaks

/-- The service has ended. The store was closed at some times by now. -/
structure Over (s₀ : Session) (jobs : List Job) (failure? : Option Failure)
    (storeClosed : List Rat) (c : Course Step) : Prop where
  quiet : c.engine.quiet.armed = false ∨ c.engine.closed = true
  settled : s₀.engine.edits.isEmpty = true ∨ s₀.engine.closed = true ∨ c.engine.flight = .none
  closes : failure? = none → c.engine.closed = true ∧
    (∃ time, storeClosed = s₀.storeClosed ++ if s₀.closable then [time] else []) ∧
    ∀ e ∈ s₀.engine.edits.edits, ∃ batch ∈ c.sent, batch.Holds e
  fails : failure? ≠ none →
    c.engine.closed = s₀.engine.closed ∧ storeClosed = s₀.storeClosed
  none_iff : failure? = none ↔ s₀.engine.edits.isEmpty = true ∨
    (s₀.engine.closed = false ∧ ¬ s₀.engine.Stalled ∧ ∀ j ∈ jobs, ¬ j.Breaks)

/-- What stands while the service ends. -/
structure Standing (s₀ s : Session) (c : Course Step) : Prop where
  follows : Follows [] s c
  reach : c.Reachable (fun _ _ => True) (Listening fun _ _ => True)
  passive : c.engine.Passive
  closable : s.closable = s₀.closable

/-- The service that was to end in `s₀` has come to `s`. -/
inductive Phase (s₀ : Session) (jobs : List Job) (s : Session) (c : Course Step) : Prop where
  | flying : Flying s₀.engine jobs c → Owns [] s → s.stage = .up →
      s.storeClosed = s₀.storeClosed → s.waiting.count .service = 1 → Phase s₀ jobs s c
  /-- Those who wait for the flight are told that it is over. -/
  | notified {failure? : Option Failure} : Landed s₀.engine jobs failure? c →
      Owns [.notify .service failure?] s → s.stage = .up → s.storeClosed = s₀.storeClosed →
      .service ∉ s.waiting → jobs.countP Job.awaited ≤ 4 → Phase s₀ jobs s c
  | woken {failure? : Option Failure} : Landed s₀.engine jobs failure? c →
      Owns [.wake .service failure?] s → s.stage = .up → s.storeClosed = s₀.storeClosed →
      .service ∉ s.waiting → jobs.countP Job.awaited ≤ 5 → Phase s₀ jobs s c
  | ended (failure? : Option Failure) : Over s₀ jobs failure? s.storeClosed c → Owns [] s →
      s.stage = .ended failure? → .service ∉ s.waiting → Phase s₀ jobs s c

/-! ### Jobs of others -/

theorem Moves.leads (h : Moves s c j s' c') :
    c.Leads (fun _ _ => True) (· = .silent) c' := by
  cases h with
  | serves _ hready heq => exact heq ▸ Course.Leads.refl.step rfl hready trivial
  | rests _ _ hleads => exact hleads.mono (fun _ _ _ => trivial) fun _ => id

theorem Moves.calm (h : Moves s c j s' c') : c.engine.Calm c'.engine := by
  cases h with
  | serves _ _ heq _ _ _ _ hpasses =>
    subst heq
    exact ⟨hpasses.closed, hpasses.quiet, hpasses.replies, hpasses.listeners⟩
  | rests _ _ _ hrests => exact hrests.toCalm

theorem Moves.reach (h : Moves s c j s' c')
    (hc : c.Reachable (fun _ _ => True) (Listening fun _ _ => True)) :
    c'.Reachable (fun _ _ => True) (Listening fun _ _ => True) := by
  refine hc.trans (h.leads.mono (fun _ _ _ => trivial) ?_)
  rintro _ rfl
  exact aloof_silent.listening

theorem count_append (jobs : List Job) (j : Job) :
    (jobs ++ [j]).countP Job.awaited = jobs.countP Job.awaited + if j.awaited then 1 else 0 := by
  rw [List.countP_append, List.countP_singleton]

theorem unbroken_append :
    (∀ j' ∈ jobs ++ [j], ¬ j'.Breaks) ↔ (∀ j' ∈ jobs, ¬ j'.Breaks) ∧ ¬ j.Breaks := by
  simp only [List.forall_mem_append, List.forall_mem_singleton]

/-- An edit that is to be saved at once is sent or still to be saved as long as every failure is
foreseen. -/
theorem covered_of_leads {e : Edit}
    (h : c.Leads (fun _ ev => ev.Foreseen ∧ ∀ call, ev ≠ .call call) (· = .silent) c')
    (hc : c.Reachable (fun _ _ => True) (Listening fun _ _ => True))
    (hopen : c'.engine.closed = false)
    (he : (∃ batch ∈ c.sent, batch.Holds e) ∨ c.engine.Overdue e) :
    (∃ batch ∈ c'.sent, batch.Holds e) ∨ c'.engine.Overdue e := by
  obtain ⟨batch, hbatch, hholds⟩ | hover := he
  · exact .inl ⟨batch, h.sent_subset hbatch, hholds⟩
  · refine (Course.Leads.follows_while (h.mono ?_ ?_) hc hover).resolve_left ?_
    · rintro c ev ⟨hforeseen, hcall⟩
      refine ⟨fun _ => ?_, hforeseen⟩
      cases ev with
      | call call => exact (hcall call rfl).elim
      | turn t => trivial
      | wait seconds => trivial
    · rintro _ rfl
      exact .aloof aloof_silent
    · simp [hopen]

/-- Without a flight there is nothing that it could wait for. -/
theorem flies_of_serves {ev : Event Step} (hserves : ev.serves = true) (hready : c.Ready ev) :
    c.engine.flight ≠ .none := by
  intro hnone
  cases ev with
  | call | wait => cases hserves
  | turn t =>
    cases t with
    | quietOver | shownOver | loaded => cases hserves
    | takeOff => cases hnone.symm.trans hready
    | updated answer =>
      obtain ⟨batch, hflight⟩ := hready
      cases hnone.symm.trans hflight
    | reloaded answer =>
      obtain ⟨batch, rows, load, hflight⟩ := hready
      cases hnone.symm.trans hflight

theorem not_overdue_of_landed {g : Engine Step} {e : Edit} (h : g.flight = .none) :
    ¬ g.Overdue e := by
  rintro ⟨-, hwaiting | ⟨hflying, -⟩⟩
  · cases h.symm.trans hwaiting
  · simp [Engine.flying, h] at hflying

section

variable {g₀ : Engine Step} {failure? : Option Failure} {storeClosed : List Rat}

/-- The engine does something else meanwhile. -/
theorem Flying.rests (h : Flying g₀ jobs c)
    (hleads : c.Leads (fun _ ev => ev.Foreseen ∧ ∀ call, ev ≠ .call call) (· = .silent) c')
    (hrests : c.engine.Rests c'.engine)
    (hc : c.Reachable (fun _ _ => True) (Listening fun _ _ => True)) : Flying g₀ jobs c' := by
  have hopen : c'.engine.closed = false := hrests.closed.trans h.isOpen
  refine ⟨h.edited, h.wasOpen, hopen, hrests.quiet h.quiet, ?_, ?_, h.unbroken, ?_, ?_⟩
  · exact hrests.flight.symm ▸ h.flies
  · exact fun e he => covered_of_leads hleads hc hopen (h.covered e he)
  · exact hrests.stalled.trans h.stalled
  · rw [hrests.left]
    exact h.soon

theorem Landed.rests {events : Course Step → Event Step → Prop}
    {actings : Engine.Acting Step → Prop} (h : Landed g₀ jobs failure? c)
    (hleads : c.Leads events actings c') (hrests : c.engine.Rests c'.engine) :
    Landed g₀ jobs failure? c' := by
  refine ⟨h.edited, h.wasOpen, hrests.closed.trans h.isOpen, hrests.quiet h.quiet,
    hrests.flight.trans h.landed, fun hnone e he => ?_, h.none_iff⟩
  obtain ⟨batch, hbatch, hholds⟩ := h.covered hnone e he
  exact ⟨batch, hleads.sent_subset hbatch, hholds⟩

theorem Over.calm {events : Course Step → Event Step → Prop}
    {actings : Engine.Acting Step → Prop} (h : Over s₀ jobs failure? storeClosed c)
    (hleads : c.Leads events actings c') (hcalm : c.engine.Calm c'.engine)
    (hlanded : c.engine.flight = .none → c'.engine.flight = .none) :
    Over s₀ jobs failure? storeClosed c' := by
  refine ⟨h.quiet.imp hcalm.quiet hcalm.closed.trans, ?_, fun hnone => ?_, fun hsome => ?_,
    h.none_iff⟩
  · exact h.settled.imp_right (Or.imp_right hlanded)
  · obtain ⟨hengine, hstore, hcovered⟩ := h.closes hnone
    refine ⟨hcalm.closed.trans hengine, hstore, fun e he => ?_⟩
    obtain ⟨batch, hbatch, hholds⟩ := hcovered e he
    exact ⟨batch, hleads.sent_subset hbatch, hholds⟩
  · obtain ⟨hengine, hstore⟩ := h.fails hsome
    exact ⟨hcalm.closed.trans hengine, hstore⟩

theorem Landed.append (h : Landed g₀ jobs failure? c) (hbreaks : ¬ j.Breaks) :
    Landed g₀ (jobs ++ [j]) failure? c :=
  { h with none_iff := by rw [h.none_iff, unbroken_append, and_iff_left hbreaks] }

/-- The flight goes on while a job of others is done, or it is over by that. -/
theorem Flying.moves (h : Flying g₀ jobs c) (hmoves : Moves s c j s' c')
    (hc : c.Reachable (fun _ _ => True) (Listening fun _ _ => True)) (hother : j.Other) :
    Flying g₀ (jobs ++ [j]) c' ∧ Extends { s with engine := c'.engine } s' ∨
      ∃ failure?, Landed g₀ (jobs ++ [j]) failure? c' ∧
        Adds (s.waiting.map fun asker => .job (.notify asker failure?)) []
          { s with engine := c'.engine, waiting := [] } s' ∧
        (jobs ++ [j]).countP Job.awaited ≤ 4 := by
  have hcalm := hmoves.calm
  have hsoon := h.soon
  cases hmoves with
  | rests hj hbreaks hleads hrests hextends =>
    have hrested := h.rests hleads hrests hc
    refine .inl ⟨{ hrested with unbroken := ?_, soon := ?_ }, hextends⟩
    · exact unbroken_append.2 ⟨h.unbroken, hbreaks⟩
    · rw [count_append, hother.awaited, hj]
      exact hrested.soon
  | @serves ev n failure? hserves hready heq hbreaks hj hflies hlands hpasses hleft hnone =>
    subst heq
    have hopen : (c.after .silent ev).engine.closed = false := hcalm.closed.trans h.isOpen
    have hfailure := hnone h.isOpen
    have hleft' : (c.after .silent ev).engine.left ≤ n := hpasses.left
    have hcount : (jobs ++ [j]).countP Job.awaited = jobs.countP Job.awaited + 1 := by
      rw [count_append, hother.awaited, hj, if_pos rfl]
    -- a foreseen turn of the engine
    have hcovered (hforeseen : ev.Foreseen) : ∀ e ∈ g₀.edits.edits,
        (∃ batch ∈ (c.after .silent ev).sent, batch.Holds e) ∨
          (c.after .silent ev).engine.Overdue e := by
      intro e he
      refine covered_of_leads (Course.Leads.refl.step rfl hready ⟨hforeseen, ?_⟩) hc hopen
        (h.covered e he)
      rintro call rfl
      cases hserves
    by_cases hdown : (c.after .silent ev).engine.flight = .none
    · refine .inr ⟨failure?, ⟨h.edited, h.wasOpen, hopen, hcalm.quiet h.quiet, hdown, ?_, ?_⟩,
        hlands hdown, by omega⟩
      · intro hnone e he
        exact (hcovered (hfailure.1 hnone).1 e he).resolve_right (not_overdue_of_landed hdown)
      · rw [hfailure, hbreaks, h.stalled, and_comm, unbroken_append, and_iff_right h.unbroken]
    · -- as long as the flight goes on there is no failure
      have hgoes : failure? = none :=
        Classical.byContradiction fun hsome => hdown (hpasses.landed hsome)
      obtain ⟨hforeseen, hstalled⟩ := hfailure.1 hgoes
      refine .inl ⟨⟨h.edited, h.wasOpen, hopen, hcalm.quiet h.quiet, hdown, hcovered hforeseen, ?_,
        ?_, ?_⟩, hflies hdown⟩
      · exact unbroken_append.2 ⟨h.unbroken, hbreaks.1 hforeseen⟩
      · -- a flight that was not stalled and goes on well is not stalled then
        refine iff_of_false ?_ fun hstalled₀ => hstalled (h.stalled.2 hstalled₀)
        intro hstalled'
        have hiff := Course.stalled_after_iff hc.sound.ledger hc.aloft aloof_silent.listening
          hready h.isOpen
        obtain ⟨hunforeseen, -⟩ | ⟨hstalled', -⟩ := hiff.1 hstalled'
        · exact hunforeseen hforeseen
        · exact hstalled hstalled'
      · omega

/-- Once the flight is over, jobs of others change nothing for the service. -/
theorem Landed.moves (h : Landed g₀ jobs failure? c) (hmoves : Moves s c j s' c')
    (hother : j.Other) :
    Landed g₀ (jobs ++ [j]) failure? c' ∧
      (jobs ++ [j]).countP Job.awaited = jobs.countP Job.awaited := by
  cases hmoves with
  | serves hserves hready => exact (flies_of_serves hserves hready h.landed).elim
  | rests hj hbreaks hleads hrests hextends =>
    refine ⟨(h.rests hleads hrests).append hbreaks, ?_⟩
    rw [count_append, hother.awaited, hj]
    rfl

/-- After the end, jobs of others change nothing that matters. -/
theorem Over.moves (h : Over s₀ jobs failure? storeClosed c) (hmoves : Moves s c j s' c') :
    Over s₀ (jobs ++ [j]) failure? storeClosed c' := by
  -- once there is no flight, no load after a save can fail
  have hstays (hnone : c.engine.flight = .none) : c'.engine.flight = .none ∧ ¬ j.Breaks := by
    cases hmoves with
    | serves hserves hready => exact (flies_of_serves hserves hready hnone).elim
    | rests _ hbreaks _ hrests => exact ⟨hrests.flight.trans hnone, hbreaks⟩
  refine { h.calm hmoves.leads hmoves.calm fun hnone => (hstays hnone).1 with none_iff := ?_ }
  obtain hempty | hclosed₀ | hnone := h.settled
  · exact iff_of_true (h.none_iff.2 (.inl hempty)) (.inl hempty)
  · refine h.none_iff.trans (or_congr_right (iff_of_false ?_ ?_)) <;> simp [hclosed₀]
  · rw [h.none_iff, unbroken_append, and_iff_left (hstays hnone).2]

end

/-- What a job of others leaves of the session. -/
theorem Moves.beside (h : Moves s c j s' c') :
    s'.stage = s.stage ∧ s'.closable = s.closable ∧ s'.storeClosed = s.storeClosed ∧
      (.service ∉ s.waiting → .service ∉ s'.waiting) ∧
      (.service ∉ s.waiting → ∀ own, Owns own s → Owns own s') := by
  have hextends {g : Engine Step} (hextends : Extends { s with engine := g } s') :
      s'.stage = s.stage ∧ s'.closable = s.closable ∧ s'.storeClosed = s.storeClosed ∧
        (.service ∉ s.waiting → .service ∉ s'.waiting) ∧
        (.service ∉ s.waiting → ∀ own, Owns own s → Owns own s') := by
    have howns (own : List Job) (h : Owns own s) : Owns own s' := by
      have hengine : Owns own { s with engine := g } := h
      exact hengine.of_extends hextends
    obtain ⟨items, batches, -, hadds⟩ := hextends
    exact ⟨hadds.stage, hadds.closable, hadds.storeClosed, fun h => hadds.waiting ▸ h,
      fun _ => howns⟩
  cases h with
  | rests _ _ _ _ h => exact hextends h
  | serves _ _ _ _ _ hflies hlands =>
    by_cases hdown : c'.engine.flight = .none
    · have hadds := hlands hdown
      refine ⟨hadds.stage, hadds.closable, hadds.storeClosed, fun _ => ?_,
        fun hwait own howns => ?_⟩
      · rw [hadds.waiting]
        nofun
      · have hengine : Owns own { s with engine := c'.engine, waiting := [] } := howns
        refine hengine.of_adds [] hadds ⟨_, .refl _, fun i hi => ?_⟩
        obtain ⟨asker, hasker, rfl⟩ := List.mem_map.1 hi
        rintro rfl
        exact hwait hasker
    · exact hextends (hflies hdown)

/-! ### The service itself -/

theorem closeAll_eq (s : Session) (h : s.engine.outbox = []) :
    s.closeAll =
      { s with
        engine := s.engine.close
        storeClosed := if s.closable then s.storeClosed ++ [s.now] else s.storeClosed
        stage := .ended none } := by
  have houtbox : s.engine.close.outbox = [] := by
    unfold Engine.close
    split <;> exact h
  have hengine : ({ s.engine.close with outbox := [] } : Engine Step) = s.engine.close := by
    rw [← houtbox]
  have hnow : s.engine.close.now = s.engine.now := by
    unfold Engine.close
    split <;> rfl
  unfold closeAll now
  rw [s.withEngine_of_nothing houtbox, hengine]
  dsimp only
  rw [hnow]

theorem close_closed (g : Engine Step) : g.close.closed = true := by
  unfold Engine.close
  split <;> first | assumption | rfl

theorem close_passive {g : Engine Step} (h : g.Passive) : g.close.Passive := by
  unfold Engine.close
  split <;> exact h

theorem flight_close (g : Engine Step) : g.close.flight = g.flight := by
  unfold Engine.close
  split <;> rfl

/-- With nothing left to save, the engine and the store are closed. -/
theorem closeAll_over (hs : Standing s₀ s c) (hstore : s.storeClosed = s₀.storeClosed)
    (hsettled : s₀.engine.edits.isEmpty = true ∨ c.engine.flight = .none)
    (hcovered : ∀ e ∈ s₀.engine.edits.edits, ∃ batch ∈ c.sent, batch.Holds e)
    (hnone : s₀.engine.edits.isEmpty = true ∨
      (s₀.engine.closed = false ∧ ¬ s₀.engine.Stalled ∧ ∀ j ∈ jobs, ¬ j.Breaks))
    (howns : Owns [] s) (hwait : .service ∉ s.waiting) :
    ∃ c', Standing s₀ s.closeAll c' ∧ Phase s₀ jobs s.closeAll c' := by
  have hsound : c.Sound := hs.reach.sound
  have heq := s.closeAll_eq (hs.follows.engine ▸ hsound.said)
  have hfollows := hs.follows.closeAll hsound
  have hengine : (c.after acting (.call .close)).engine = c.engine.close := by
    rw [← hfollows.engine, heq, hs.follows.engine]
  refine ⟨_, ⟨hfollows, hs.reach.trans (leads_call c .close), ?_, ?_⟩, .ended none ?_
    ?_ ?_ ?_⟩
  · rw [hengine]
    exact close_passive hs.passive
  · rw [heq]
    exact hs.closable
  · refine ⟨.inr ?_, ?_, fun _ => ⟨?_, ⟨s.now, ?_⟩, fun e he => ?_⟩, fun h => (h rfl).elim,
      iff_of_true rfl hnone⟩
    · rw [hengine]
      exact close_closed _
    · rw [hengine, flight_close]
      exact hsettled.imp_right .inr
    · rw [hengine]
      exact close_closed _
    · rw [heq, ← hs.closable, ← hstore]
      dsimp only
      split <;> simp
    · obtain ⟨batch, hbatch, hholds⟩ := hcovered e he
      exact ⟨batch, (leads_call c .close).sent_subset hbatch, hholds⟩
  · rw [heq]
    exact howns
  · rw [heq]
  · rw [heq]
    exact hwait

/-- Of those who wait for the flight, the service is told once. -/
theorem owns_notify {failure? : Option Failure} (h : Owns [] s)
    (hwait : s.waiting.count .service = 1) {g : Engine Step}
    (hadds : Adds (s.waiting.map fun asker => .job (.notify asker failure?)) []
      { s with engine := g, waiting := [] } s') : Owns [.notify .service failure?] s' := by
  have hmem : .service ∈ s.waiting := List.count_pos_iff.1 (by omega)
  have hothers : .service ∉ s.waiting.erase .service := by
    rw [← List.count_eq_zero, List.count_erase_self]
    omega
  have hengine : Owns [] { s with engine := g, waiting := [] } := h
  refine hengine.of_adds [.notify .service failure?] hadds
    ⟨(s.waiting.erase .service).map fun asker => .job (.notify asker failure?), ?_, ?_⟩
  · exact (List.perm_cons_erase hmem).map _
  · intro i hi
    obtain ⟨asker, hasker, rfl⟩ := List.mem_map.1 hi
    rintro rfl
    exact hothers hasker

/-- A job of others keeps the flight that the service waits for, or is the end of it, of which the
service is told. -/
theorem Flying.phase (h : Flying s₀.engine jobs c) (hmoves : Moves s c j s' c')
    (hc : c.Reachable (fun _ _ => True) (Listening fun _ _ => True)) (hother : j.Other)
    (howns : Owns [] s) (hup : s.stage = .up) (hstore : s.storeClosed = s₀.storeClosed)
    (hwait : s.waiting.count .service = 1) : Phase s₀ (jobs ++ [j]) s' c' := by
  obtain ⟨hstage, -, hclosed, -⟩ := hmoves.beside
  obtain ⟨hflying, hextends⟩ | ⟨failure?, hlanded, hadds, hcount⟩ := h.moves hmoves hc hother
  · have hengine : Owns [] { s with engine := c'.engine } := howns
    refine .flying hflying (hengine.of_extends hextends) (hstage.trans hup)
      (hclosed.trans hstore) ?_
    obtain ⟨items, batches, -, hadds⟩ := hextends
    rw [hadds.waiting]
    exact hwait
  · refine .notified hlanded (owns_notify howns hwait hadds) (hstage.trans hup)
      (hclosed.trans hstore) ?_ hcount
    rw [hadds.waiting]
    nofun

theorem Standing.of_gains (hs : Standing s₀ s c) (h : Gains [] s s')
    (hclosable : s'.closable = s.closable) : Standing s₀ s' c :=
  ⟨hs.follows.gains h, hs.reach, hs.passive, hclosable.trans hs.closable⟩

/-- The service goes on when it is told that the flight is over. -/
theorem Landed.wake {failure? : Option Failure} (h : Landed s₀.engine jobs failure? c)
    (hs : Standing s₀ s c) (howns : Owns [] s) (hstore : s.storeClosed = s₀.storeClosed)
    (hwait : .service ∉ s.waiting) :
    ∃ c', Standing s₀ (s.turn (.wake .service failure?)) c' ∧
      Phase s₀ jobs (s.turn (.wake .service failure?)) c' := by
  cases failure? with
  | none =>
    exact closeAll_over hs hstore (.inr h.landed) (h.covered rfl)
      (.inr ⟨h.wasOpen, h.none_iff.1 rfl⟩) howns hwait
  | some f =>
    -- the failure of the flight is that of the service, and nothing is closed
    refine ⟨c, ⟨hs.follows.of_eq rfl rfl rfl, hs.reach, hs.passive, hs.closable⟩,
      .ended (some f) ?_ howns rfl hwait⟩
    refine ⟨.inl h.quiet, .inr (.inr h.landed), nofun, fun _ => ⟨?_, hstore⟩, ?_⟩
    · exact h.isOpen.trans h.wasOpen.symm
    · refine iff_of_false nofun ?_
      rintro (hempty | ⟨-, hwell⟩)
      · cases h.edited.symm.trans hempty
      · cases h.none_iff.2 hwell

theorem eq_of_singleton {α : Type} {a b : α} {before after : List α}
    (h : [a] = before ++ b :: after) : before = [] ∧ after = [] ∧ b = a := by
  cases before with
  | nil =>
    obtain ⟨rfl, rfl⟩ := List.cons.inj h
    exact ⟨rfl, rfl, rfl⟩
  | cons b' before => simp at h

/-- A job takes the end of the service on, or leaves it where it is. -/
theorem Phase.turn (h : Phase s₀ jobs s c) (hs : Standing s₀ s c) (hround : s.round = j :: rest) :
    ∃ c', Standing s₀ ({ s with round := rest }.turn j) c' ∧
      Phase s₀ (jobs ++ [j]) ({ s with round := rest }.turn j) c' := by
  have hfollows := hs.follows.turn hround
  have hmoved (hother : j.Other)
      (hquiet : c.engine.quiet.armed = false ∨ c.engine.closed = true) :
      ∃ c', Standing s₀ ({ s with round := rest }.turn j) c' ∧
        Moves { s with round := rest } c j ({ s with round := rest }.turn j) c' := by
    obtain ⟨c', hafter, hmoves⟩ :=
      turn_other hs.reach hs.passive hfollows hother (hs.follows.timed.timely_head hround) hquiet
    exact ⟨c', ⟨hafter, hmoves.reach hs.reach, hmoves.calm.passive hs.passive,
      hmoves.beside.2.1.trans hs.closable⟩, hmoves⟩
  -- the session without a job that brings nothing
  have hrest (hj : j.pending? = none) : Standing s₀ { s with round := rest } c := by
    rw [hj] at hfollows
    exact ⟨hfollows, hs.reach, hs.passive, hs.closable⟩
  cases h with
  | flying hflying howns hup hstore hwait =>
    obtain ⟨hother, howns⟩ | ⟨before, after, heq, -⟩ := howns.turn hround
    · obtain ⟨c', hs', hmoves⟩ := hmoved hother (.inl hflying.quiet)
      exact ⟨c', hs', hflying.phase hmoves hs.reach hother howns hup hstore hwait⟩
    · simp at heq
  | @notified failure? hlanded howns hup hstore hwait hcount =>
    obtain ⟨hother, howns⟩ | ⟨before, after, heq, howns⟩ := howns.turn hround
    · obtain ⟨c', hs', hmoves⟩ := hmoved hother (.inl hlanded.quiet)
      obtain ⟨hstage, -, hclosed, hwait', howns'⟩ := hmoves.beside
      obtain ⟨hlanded, hcount'⟩ := hlanded.moves hmoves hother
      exact ⟨c', hs', .notified hlanded (howns' hwait _ howns) (hstage.trans hup)
        (hclosed.trans hstore) (hwait' hwait) (hcount' ▸ hcount)⟩
    · obtain ⟨rfl, rfl, rfl⟩ := eq_of_singleton heq
      have hs' := hrest rfl
      refine ⟨c, hs'.of_gains (push_gains _ trivial) rfl,
        .woken (hlanded.append id) ?_ hup hstore hwait ?_⟩
      · exact howns.of_adds [.wake .service failure?] (adds_push _ _)
          ⟨[], .refl _, List.forall_mem_nil _⟩
      · rw [count_append]
        exact Nat.add_le_add_right hcount 1
  | @woken failure? hlanded howns hup hstore hwait hcount =>
    obtain ⟨hother, howns⟩ | ⟨before, after, heq, howns⟩ := howns.turn hround
    · obtain ⟨c', hs', hmoves⟩ := hmoved hother (.inl hlanded.quiet)
      obtain ⟨hstage, -, hclosed, hwait', howns'⟩ := hmoves.beside
      obtain ⟨hlanded, hcount'⟩ := hlanded.moves hmoves hother
      exact ⟨c', hs', .woken hlanded (howns' hwait _ howns) (hstage.trans hup)
        (hclosed.trans hstore) (hwait' hwait) (hcount' ▸ hcount)⟩
    · obtain ⟨rfl, rfl, rfl⟩ := eq_of_singleton heq
      exact (hlanded.append id).wake (hrest rfl) howns hstore hwait
  | ended failure? hover howns hended hwait =>
    obtain ⟨hother, howns⟩ | ⟨before, after, heq, -⟩ := howns.turn hround
    · obtain ⟨c', hs', hmoves⟩ := hmoved hother hover.quiet
      obtain ⟨hstage, -, hclosed, hwait', howns'⟩ := hmoves.beside
      refine ⟨c', hs', .ended failure? ?_ (howns' hwait [] howns) (hstage.trans hended)
        (hwait' hwait)⟩
      rw [hclosed]
      exact hover.moves hmoves
    · simp at heq

end DeferredSave.Session
