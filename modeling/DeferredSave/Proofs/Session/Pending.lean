import DeferredSave.Proofs.Course.Traffic
import DeferredSave.Session.Turn

/-!
# What is under way in a session

What a session asks for is under way as a job or as a call that is held. Each function of a session
adds exactly what it asks for (`Session.call_adds`, `Session.withEngine_gains`), so what is under
way can be compared with what the flight of the engine and its loads wait for.

What the listeners of a session do when they are told is among what the listeners of a course may
do (`Session.acting_listening`), so every property that a course keeps for all listeners holds in a
session.
-/

namespace DeferredSave

namespace Session

/-! ## Listeners -/

/-- An act is at most one call of the engine, or an order to its surroundings. -/
theorem callback_act (depth : Nat) (s : Step) (g : Engine Step) :
    Callback (fun _ _ => True) (act depth) g (act (depth + 1) s g) := by
  cases s with
  | change key value => exact .call (.change key value) .none trivial rfl
  | discard keys? => exact .call (.discard keys?) .none trivial rfl
  | close => exact .call .close .none trivial rfl
  | subscribe listener statuses act? =>
    exact .call (.subscribe listener (act?.map (⟨statuses, ·⟩))) .none trivial rfl
  | unsubscribe handle => exact .call (.unsubscribe handle) .none trivial rfl
  -- what a listener learns or fails with stays with it
  | fail | effective | warning | warnings | catalog => exact .none
  -- what is about the surroundings is left to them
  | store | release | server | trip | detach | flushNow | refresh | request =>
    exact .order _ .none

theorem act_listening (depth : Nat) : Listening (fun _ _ => True) (act depth) := by
  induction depth with
  | zero => exact .aloof fun _ g => ⟨[], by simp [act]⟩
  | succ depth ih => exact .calling ih (callback_act depth)

theorem acting_listening : Listening (fun _ _ => True) acting :=
  act_listening actDepth

/-! ## What is waited for -/

/-- Something that was asked for and is not there yet. -/
inductive Pending where
  /-- The first turn of a flight. -/
  | takeOff
  /-- The answer to a batch. -/
  | update
  /-- The answer to the load after a save. -/
  | reload
  | load (number : Nat)
deriving DecidableEq, Repr

def Caller.pending : Caller → Pending
  | save _ => .update
  | reload => .reload
  | refresh load _ => .load load

def StoreAnswer.pending : StoreAnswer → Pending
  | saved _ => .update
  | reloaded _ => .reload
  | loaded load .. => .load load

/-- What a job brings. -/
def Job.pending? : Job → Option Pending
  | takeOff => some .takeOff
  | released caller .. => some caller.pending
  | answer a => some a.pending
  | _ => none

/-- The answer is one that the caller can get. -/
def StoreAnswer.Fits : StoreAnswer → Caller → Prop
  | saved _, .save _ => True
  | reloaded _, .reload => True
  | loaded load asker _, .refresh load' asker' => load = load' ∧ asker = asker'
  | _, _ => False

theorem StoreAnswer.Fits.pending {a : StoreAnswer} {caller : Caller} (h : a.Fits caller) :
    a.pending = caller.pending := by
  cases a <;> cases caller <;> first | exact h.elim | rfl | exact congrArg Pending.load h.1

def Caller.batch? : Caller → Option Batch
  | save batch => some batch
  | reload | refresh .. => none

/-- A job, or a call that is held. -/
inductive Item where
  | job (j : Job)
  | call (caller : Caller)

def Item.pending? : Item → Option Pending
  | job j => j.pending?
  | call caller => some caller.pending

/-- A job that brings nothing, and that is not about a timer. -/
def Job.Idle : Job → Prop
  | step _ | begin .. | notify .. | wake .. | startUp | shutDown => True
  | takeOff | expiry .. | released .. | answer _ => False

def Item.Idle : Item → Prop
  | job j => j.Idle
  | call _ => False

theorem Item.Idle.pending? {i : Item} (h : i.Idle) : i.pending? = none := by
  cases i with
  | call caller => exact h.elim
  | job j => cases j <;> first | exact h.elim | rfl

/-- All jobs and calls. -/
def items (s : Session) : List Item :=
  (s.round ++ s.queue).map .job ++ s.held.map (.call ·.caller)

def pending (s : Session) : List Pending := s.items.filterMap Item.pending?

/-- An expiry waits to be handled. -/
def Expires (s : Session) (name : TimerName) (number : Nat) : Prop :=
  .job (.expiry name number) ∈ s.items

end Session

def Errand.pending : Errand → Session.Pending
  | takeOff => .takeOff
  | update _ => .update
  | reload => .reload

namespace Session

variable {s s' s'' : Session}

/-! ## What a session asks for -/

/-- The session `s'` is `s` but for its jobs and calls, and what they are about. -/
structure Beside (s s' : Session) : Prop where
  engine : s'.engine = s.engine
  waiting : s'.waiting = s.waiting
  stage : s'.stage = s.stage
  closable : s'.closable = s.closable
  storeClosed : s'.storeClosed = s.storeClosed

theorem Beside.refl (s : Session) : Beside s s := ⟨rfl, rfl, rfl, rfl, rfl⟩

theorem Beside.trans (h : Beside s s') (h' : Beside s' s'') : Beside s s'' where
  engine := h'.engine.trans h.engine
  waiting := h'.waiting.trans h.waiting
  stage := h'.stage.trans h.stage
  closable := h'.closable.trans h.closable
  storeClosed := h'.storeClosed.trans h.storeClosed

/-- The session `s'` has some jobs and calls more than `s`, and sent some batches. -/
structure Adds (items : List Item) (batches : List Batch) (s s' : Session) : Prop
    extends Beside s s' where
  items : s'.items.Perm (items ++ s.items)
  sent : s'.sent = s.sent ++ batches

theorem items_push (s : Session) (j : Job) : (s.push j).items.Perm (.job j :: s.items) := by
  have hjobs : (s.push j).items =
      (s.round ++ s.queue).map Item.job ++ (.job j :: s.held.map (.call ·.caller)) := by
    simp [items, push]
  rw [hjobs]
  exact List.perm_middle

theorem adds_push (s : Session) (j : Job) : Adds [.job j] [] s (s.push j) :=
  ⟨⟨rfl, rfl, rfl, rfl, rfl⟩, s.items_push j, (List.append_nil _).symm⟩

/-! ### Calls of the store -/

theorem failedAnswer_fits (f : Failure) (caller : Caller) :
    (failedAnswer f caller).Fits caller := by
  cases caller <;> trivial

theorem ask_fits (s : Session) (given? : Option Categories) (caller : Caller) :
    (s.ask given? caller).2.Fits caller := by
  cases caller <;> trivial

/-- The session `s'` is `s` but for the store and how it is called. -/
structure Aside (s s' : Session) : Prop extends Beside s s' where
  round : s'.round = s.round
  queue : s'.queue = s.queue
  held : s'.held = s.held
  sent : s'.sent = s.sent

theorem Aside.refl (s : Session) : Aside s s := ⟨.refl s, rfl, rfl, rfl, rfl⟩

theorem Aside.trans (h : Aside s s') (h' : Aside s' s'') : Aside s s'' where
  toBeside := h.toBeside.trans h'.toBeside
  round := h'.round.trans h.round
  queue := h'.queue.trans h.queue
  held := h'.held.trans h.held
  sent := h'.sent.trans h.sent

theorem Aside.items (h : Aside s s') : s'.items = s.items := by
  unfold Session.items
  rw [h.round, h.queue, h.held]

theorem aside_setMode (s : Session) (kind : CallKind) (m : CallMode) :
    Aside s (s.setMode kind m) := by
  cases kind <;> exact ⟨⟨rfl, rfl, rfl, rfl, rfl⟩, rfl, rfl, rfl, rfl⟩

theorem aside_callOver (s : Session) (kind : CallKind) : Aside s (s.callOver kind) := by
  cases kind <;> exact ⟨⟨rfl, rfl, rfl, rfl, rfl⟩, rfl, rfl, rfl, rfl⟩

theorem aside_ask (s : Session) (given? : Option Categories) (caller : Caller) :
    Aside s (s.ask given? caller).1 := by
  cases caller <;> exact ⟨⟨rfl, rfl, rfl, rfl, rfl⟩, rfl, rfl, rfl, rfl⟩

theorem aside_countCall (s : Session) (caller : Caller) :
    Aside { s with sent := s.sent ++ caller.batch?.toList } (s.countCall caller).1 := by
  cases caller with
  | save batch => exact ⟨⟨rfl, rfl, rfl, rfl, rfl⟩, rfl, rfl, rfl, rfl⟩
  | reload | refresh =>
    exact ⟨⟨rfl, rfl, rfl, rfl, rfl⟩, rfl, rfl, rfl, (List.append_nil _).symm⟩

/-- A call that is held waits for its release, and the answer to another one comes next. -/
theorem call_cases (s : Session) (caller : Caller) :
    ∃ s₁ : Session, Aside { s with sent := s.sent ++ caller.batch?.toList } s₁ ∧
      ((∃ number, s.call caller = { s₁ with held := s₁.held ++ [⟨number, caller⟩] }) ∨
        ∃ a : StoreAnswer, a.Fits caller ∧
          s.call caller = { s₁ with round := .answer a :: s₁.round }) := by
  have hcount := s.aside_countCall caller
  unfold call
  dsimp only
  split
  · exact ⟨_, hcount, .inl ⟨_, rfl⟩⟩
  · split
    · rename_i f _
      refine ⟨_, (hcount.trans ?_).trans (aside_callOver _ _),
        .inr ⟨_, failedAnswer_fits f caller, rfl⟩⟩
      split
      · exact aside_setMode _ _ _
      · exact .refl _
    · exact ⟨_, (hcount.trans (aside_ask _ none caller)).trans (aside_callOver _ _),
        .inr ⟨_, ask_fits _ none caller, rfl⟩⟩

/-- The call is under way, or its answer is. -/
inductive Item.Stands (caller : Caller) : Item → Prop where
  | held : Stands caller (.call caller)
  | answered {a : StoreAnswer} : a.Fits caller → Stands caller (.job (.answer a))

theorem Item.Stands.pending? {caller : Caller} {i : Item} (h : i.Stands caller) :
    i.pending? = some caller.pending := by
  cases h with
  | held => rfl
  | answered hfits => exact congrArg some hfits.pending

theorem call_adds (s : Session) (caller : Caller) :
    ∃ i : Item, i.Stands caller ∧ Adds [i] caller.batch?.toList s (s.call caller) := by
  -- a call that is held stands for itself, and one that is answered at once for its answer
  obtain ⟨s₁, haside, ⟨number, heq⟩ | ⟨a, hfits, heq⟩⟩ := s.call_cases caller
  · refine ⟨_, .held, ?_⟩
    rw [heq]
    refine ⟨⟨haside.engine, haside.waiting, haside.stage, haside.closable, haside.storeClosed⟩, ?_,
      haside.sent⟩
    have hitems : ({ s₁ with held := s₁.held ++ [⟨number, caller⟩] } : Session).items =
        s.items ++ [.call caller] := by
      have haside : s₁.items = s.items := haside.items
      rw [← haside]
      simp [Session.items]
    rw [hitems]
    exact List.perm_append_comm
  · refine ⟨_, .answered hfits, ?_⟩
    rw [heq]
    refine ⟨⟨haside.engine, haside.waiting, haside.stage, haside.closable, haside.storeClosed⟩, ?_,
      haside.sent⟩
    have haside : s₁.items = s.items := haside.items
    have hitems : ({ s₁ with round := .answer a :: s₁.round } : Session).items =
        .job (.answer a) :: s.items := by
      rw [← haside]
      rfl
    rw [hitems]
    exact List.Perm.refl _

/-- What is added is no expiry. -/
theorem Adds.expires {items : List Item} {batches : List Batch} (h : Adds items batches s s')
    (hother : ∀ i ∈ items, ∀ name number, i ≠ .job (.expiry name number)) (name : TimerName)
    (number : Nat) (hexpires : s'.Expires name number) : s.Expires name number := by
  obtain hmem | hmem := List.mem_append.1 (h.items.subset hexpires)
  · exact (hother _ hmem name number rfl).elim
  · exact hmem

/-! ### What the engine asks for -/

theorem landed_adds (s : Session) (failure? : Option Failure) :
    Adds (s.waiting.map fun asker => .job (.notify asker failure?)) [] { s with waiting := [] }
      (s.oblige (.landed failure?)) := by
  -- each of those who wait has a job more, on whatever jobs there are before
  have hpush (askers : List Asker) : ∀ s₀ : Session,
      Adds (askers.map fun asker => .job (.notify asker failure?)) [] s₀
        (askers.foldl (fun s asker => s.push (.notify asker failure?)) s₀) := by
    induction askers with
    | nil => exact fun s₀ => ⟨.refl s₀, List.Perm.refl _, (List.append_nil _).symm⟩
    | cons asker askers ih =>
      intro s₀
      have hone := s₀.adds_push (.notify asker failure?)
      have hrest := ih (s₀.push (.notify asker failure?))
      refine ⟨hone.toBeside.trans hrest.toBeside, ?_, hrest.sent⟩
      exact hrest.items.trans ((hone.items.append_left _).trans List.perm_middle)
  exact hpush s.waiting { s with waiting := [] }

/-- The session `s'` has the engine of `s`, and asked for some errands. -/
structure Gains (errands : List Errand) (s s' : Session) : Prop where
  engine : s'.engine = s.engine
  pending : s'.pending.Perm (s.pending ++ errands.map Errand.pending)
  sent : s'.sent = s.sent ++ errands.filterMap Errand.batch?
  expires : ∀ name number, s'.Expires name number → s.Expires name number

theorem Gains.trans {errands errands' : List Errand} (h : Gains errands s s')
    (h' : Gains errands' s' s'') : Gains (errands ++ errands') s s'' where
  engine := h'.engine.trans h.engine
  pending := by
    rw [List.map_append, ← List.append_assoc]
    exact h'.pending.trans (h.pending.append_right _)
  sent := by rw [h'.sent, h.sent, List.filterMap_append, List.append_assoc]
  expires := fun name number hexpires => h.expires name number (h'.expires name number hexpires)

/-- Jobs that bring nothing change nothing of what is under way. -/
theorem Adds.gains_nil {items : List Item} (h : Adds items [] s s') (hidle : ∀ i ∈ items, i.Idle) :
    Gains [] s s' where
  engine := h.engine
  pending := by
    have hitems : items.filterMap Item.pending? = [] :=
      List.filterMap_eq_nil_iff.2 fun i hi => (hidle i hi).pending?
    have hperm := h.items.filterMap Item.pending?
    rw [List.filterMap_append, hitems] at hperm
    exact hperm.trans (List.append_nil _ ▸ List.Perm.refl _)
  sent := h.sent
  expires := h.expires fun i hi name number heq => by
    subst heq
    exact hidle _ hi

theorem Adds.gains {i : Item} (errand : Errand) (h : Adds [i] errand.batch?.toList s s')
    (hpending : i.pending? = some errand.pending) : Gains [errand] s s' where
  engine := h.engine
  pending := by
    have hperm := h.items.filterMap Item.pending?
    rw [List.filterMap_append] at hperm
    have hone : [i].filterMap Item.pending? = [errand.pending] := by simp [hpending]
    rw [hone] at hperm
    exact hperm.trans List.perm_append_comm
  sent := by
    rw [h.sent]
    cases errand <;> rfl
  expires := h.expires fun i' hi' name number heq => by
    cases List.mem_singleton.1 hi'
    subst heq
    cases hpending

theorem Aside.gains (h : Aside s s') : Gains [] s s' where
  engine := h.engine
  pending := by
    unfold Session.pending
    rw [h.items]
    exact (List.append_nil _).symm ▸ List.Perm.refl _
  sent := h.sent.trans (List.append_nil _).symm
  expires := by
    unfold Expires
    rw [h.items]
    exact fun _ _ => id

theorem push_gains (s : Session) {j : Job} (hidle : j.Idle) : Gains [] s (s.push j) := by
  refine (s.adds_push j).gains_nil fun i hi => ?_
  cases List.mem_singleton.1 hi
  exact hidle

theorem spawn_gains (s : Session) (work : Work) : Gains [] s (s.spawn work).1 := by
  have hgains := push_gains { s with tasks := s.tasks + 1 } (j := .begin s.tasks work) trivial
  exact ⟨hgains.engine, hgains.pending, hgains.sent, hgains.expires⟩

/-- A call that is held is one of those under way. -/
theorem items_held {c : HeldCall} (h : c ∈ s.held) :
    s.items.Perm (.call c.caller :: { s with held := s.held.erase c }.items) := by
  have hheld : (s.held.map fun c => Item.call c.caller).Perm
      (.call c.caller :: (s.held.erase c).map fun c => Item.call c.caller) :=
    (List.perm_cons_erase h).map _
  exact (hheld.append_left _).trans List.perm_middle

/-- What is released is still under way. -/
theorem release_gains (s : Session) (kind : CallKind) (number : Nat) (failure? : Option Failure)
    (seed? : Option Seed) : Gains [] s (s.release kind number failure? seed?).1 := by
  unfold release
  split
  · rename_i c hfind
    have hpush := items_push { s with held := s.held.erase c } (.released c.caller failure? seed?)
    have hheld : s.items.Perm _ := items_held (List.mem_of_find?_eq_some hfind)
    refine ⟨rfl, ?_, (List.append_nil _).symm, fun name number hexpires => ?_⟩
    · rw [List.map_nil, List.append_nil]
      exact (hpush.filterMap Item.pending?).trans (hheld.filterMap Item.pending?).symm
    · obtain hnew | hmem := List.mem_cons.1 (hpush.subset hexpires)
      · cases hnew
      · exact hheld.symm.subset (List.mem_cons_of_mem _ hmem)
  · exact (Aside.refl s).gains

theorem arrange_gains (s : Session) (step : Step) : Gains [] s (s.arrange step).1 := by
  cases step with
  | release kind number failure? seed? => exact s.release_gains kind number failure? seed?
  | flushNow => exact s.spawn_gains .flushNow
  | refresh => exact s.spawn_gains .refresh
  | request r => exact s.spawn_gains (.request r)
  | store | server | trip | detach =>
    exact Aside.gains ⟨⟨rfl, rfl, rfl, rfl, rfl⟩, rfl, rfl, rfl, rfl⟩
  | change | discard | close | subscribe | unsubscribe | fail | effective | warning | warnings
  | catalog => exact (Aside.refl s).gains

theorem oblige_gains (s : Session) (e : Effect Step) : Gains e.errand?.toList s (s.oblige e) := by
  cases e with
  | takeOff => exact (s.adds_push .takeOff).gains .takeOff rfl
  | update batch =>
    obtain ⟨i, hstands, hadds⟩ := s.call_adds (.save batch)
    exact hadds.gains (.update batch) hstands.pending?
  | reload =>
    obtain ⟨i, hstands, hadds⟩ := s.call_adds .reload
    exact hadds.gains .reload hstands.pending?
  | landed failure? =>
    have hgains := (s.landed_adds failure?).gains_nil fun i hi => by
      obtain ⟨asker, -, rfl⟩ := List.mem_map.1 hi
      trivial
    exact ⟨hgains.engine, hgains.pending, hgains.sent, hgains.expires⟩
  | order step => exact s.arrange_gains step

/-- What the engine asks for is under way afterwards. -/
theorem withEngine_gains (s : Session) (g : Engine Step) :
    Gains g.errands { s with engine := { g with outbox := [] } } (s.withEngine g) := by
  -- one effect after the other, on whatever the session is by then
  have hfold (outbox : List (Effect Step)) : ∀ s₀ : Session,
      Gains (outbox.filterMap Effect.errand?) s₀ (outbox.foldl oblige s₀) := by
    induction outbox with
    | nil => exact fun s₀ => (Aside.refl s₀).gains
    | cons e outbox ih =>
      intro s₀
      have hboth := (s₀.oblige_gains e).trans (ih (s₀.oblige e))
      rw [List.filterMap_cons]
      cases herrand : e.errand? with
      | none => simpa [herrand] using hboth
      | some errand => simpa [herrand] using hboth
  exact hfold g.outbox _

end Session

end DeferredSave
