import DeferredSave.Proofs.Course.Traffic
import DeferredSave.Proofs.Session.Pending
import DeferredSave.Proofs.Session.Timed

/-!
# The course of a session

Every job of a session is a few events of its engine, each of which can happen then
(`Session.turn_follows`). So the engine of a session is one in the course of events, whatever comes
from outside and however the store answers (`Session.Runs.follows`).
-/

namespace DeferredSave

variable {ω : Type}

/-- What the flight and the loads of a course wait for. -/
def Course.pending (c : Course ω) : List Session.Pending :=
  c.engine.flight.errand?.toList.map Errand.pending ++ c.loads.map .load

/-- What is still waited for when an event happens. -/
def Course.pendingAfter (c : Course ω) (ev : Event ω) : List Session.Pending :=
  (c.engine.flight.errand?.toList.eraseP ev.ends).map Errand.pending ++
    (c.loadsAfter ev).map .load

/-- What the flight waits for can happen. -/
theorem Course.ready_of_ends (c : Course ω) {ev : Event ω} {errand : Errand}
    (herrand : c.engine.flight.errand? = some errand) (hends : ev.ends errand = true) :
    c.Ready ev := by
  cases hflight : c.engine.flight <;> rw [hflight] at herrand <;> cases herrand <;>
    unfold Event.ends at hends <;> split at hends <;> simp_all [Course.Ready]

namespace Session

variable {s s' : Session} {c c' : Course Step} {arrived : List Pending}

/-- The session is where the course is, but for what has arrived and is not handed over yet. -/
structure Follows (arrived : List Pending) (s : Session) (c : Course Step) : Prop where
  engine : s.engine = c.engine
  sent : s.sent = c.sent
  pending : (arrived ++ s.pending).Perm c.pending
  timed : s.Timed

namespace Follows

/-- Nothing else matters than the engine, the batches that were sent, and what is under way. -/
theorem of_eq (h : Follows arrived s c) (hengine : s'.engine = s.engine) (hsent : s'.sent = s.sent)
    (hitems : s'.items = s.items) : Follows arrived s' c where
  engine := hengine.trans h.engine
  sent := hsent.trans h.sent
  pending := by
    unfold Session.pending
    rw [hitems]
    exact h.pending
  timed := by
    refine h.timed.later (.of_eq hengine) ?_
    unfold Expires
    rw [hitems]
    exact fun _ _ => id

/-- What is under way may be rearranged. -/
theorem gains (h : Follows arrived s c) (hgains : Gains [] s s') : Follows arrived s' c := by
  refine ⟨hgains.engine.trans h.engine, (hgains.sent.trans (List.append_nil _)).trans h.sent, ?_,
    h.timed.of_gains hgains⟩
  have hperm := hgains.pending
  rw [List.map_nil, List.append_nil] at hperm
  exact (hperm.append_left arrived).trans h.pending

/-! ## Events -/

/-- An event of the engine takes the session to where it takes the course. -/
theorem withEngine {left : List Pending} {g : Engine Step} {ev : Event Step}
    (h : Follows arrived s c) (hsound : c.Sound) (hg : g = c.engine.after acting ev)
    (hready : c.Ready ev) (hpending : (left ++ s.pending).Perm (c.pendingAfter ev)) :
    Follows left (s.withEngine g) (c.after acting ev) := by
  subst hg
  have hgains := s.withEngine_gains (c.engine.after acting ev)
  have herrands := (Engine.after_forwards acting_listening hready).errands
    (by rw [Engine.errands, hsound.said]; rfl)
  -- the timers were armed anew at most, so that expiries that wait stay what they are
  have hlater : s.engine.Later (c.after acting ev).engine :=
    h.engine ▸ Engine.later_after acting_listening hready
  refine ⟨hgains.engine, ?_, ?_, ?_⟩
  · rw [hgains.sent, Course.sent_after, Engine.sends_eq]
    exact congrArg (· ++ _) h.sent
  · have hperm := hgains.pending.append_left left
    rw [← List.append_assoc] at hperm
    refine hperm.trans ((hpending.append_right _).trans ?_)
    -- the new errands come to what is left of the old ones
    unfold Course.pendingAfter Course.pending
    rw [List.append_assoc]
    refine (List.perm_append_comm.append_left _).trans ?_
    rw [← List.append_assoc, ← List.map_append, herrands]
    exact List.Perm.refl _
  · have htimed : Timed { s with engine := (c.after acting ev).engine } :=
      h.timed.later hlater fun _ _ => id
    exact htimed.of_gains hgains

/-- An event that nobody has waited for. -/
theorem event (h : Follows arrived s c) (hsound : c.Sound) {g : Engine Step} {ev : Event Step}
    (hg : g = c.engine.after acting ev) (hready : c.Ready ev) (hserves : ev.serves = false)
    (hloads : c.loadsAfter ev = c.loads) :
    Follows arrived (s.withEngine g) (c.after acting ev) := by
  refine h.withEngine hsound hg hready (h.pending.trans ?_)
  unfold Course.pending Course.pendingAfter
  rw [hloads, List.eraseP_of_forall_not fun errand _ => by simp [ev.ends_of_not_serves hserves]]

/-- What has arrived is what the flight waits for. -/
theorem errand {p : Pending} (h : Follows [p] s c) (hp : ∀ n, p ≠ .load n) :
    ∃ errand, c.engine.flight.errand? = some errand ∧ errand.pending = p ∧
      s.pending.Perm (c.loads.map .load) := by
  have hmem : p ∈ c.pending := h.pending.subset List.mem_cons_self
  obtain hmem | hmem := List.mem_append.1 hmem
  · obtain ⟨errand, herrand, rfl⟩ := List.mem_map.1 hmem
    have herrand : c.engine.flight.errand? = some errand := by simpa using herrand
    refine ⟨errand, herrand, rfl, ?_⟩
    have hperm := h.pending
    unfold Course.pending at hperm
    rw [herrand] at hperm
    exact (List.perm_cons _).1 hperm
  · obtain ⟨n, -, rfl⟩ := List.mem_map.1 hmem
    exact (hp n rfl).elim

/-- What the flight waits for is handed over. -/
theorem serve {p : Pending} (h : Follows [p] s c) (hp : ∀ n, p ≠ .load n) (hsound : c.Sound)
    {g : Engine Step} {ev : Event Step} (hg : g = c.engine.after acting ev)
    (hends : ∀ errand : Errand, errand.pending = p → ev.ends errand = true)
    (hloads : c.loadsAfter ev = c.loads) :
    c.Ready ev ∧ Follows [] (s.withEngine g) (c.after acting ev) := by
  obtain ⟨errand, herrand, hpending, hrest⟩ := h.errand hp
  have hready : c.Ready ev := c.ready_of_ends herrand (hends errand hpending)
  refine ⟨hready, h.withEngine hsound hg hready ?_⟩
  unfold Course.pendingAfter
  rw [hloads, herrand]
  simpa [hends errand hpending] using hrest

/-- The answer to a load that was asked for from outside is handed over. -/
theorem load {n : Nat} (h : Follows [.load n] s c) (hsound : c.Sound) {g : Engine Step}
    {answer : Except Failure Categories}
    (hg : g = c.engine.after acting (.turn (.loaded n answer))) :
    c.Ready (.turn (.loaded n answer)) ∧
      Follows [] (s.withEngine g) (c.after acting (.turn (.loaded n answer))) := by
  have hmem : .load n ∈ c.pending := h.pending.subset List.mem_cons_self
  have hready : n ∈ c.loads := by
    obtain hmem | hmem := List.mem_append.1 hmem
    · obtain ⟨errand, -, herrand⟩ := List.mem_map.1 hmem
      cases errand <;> cases herrand
    · simpa using hmem
  have hloads : (c.loads.map Pending.load).Perm (.load n :: (c.loads.erase n).map Pending.load) :=
    (List.perm_cons_erase hready).map _
  refine ⟨hready, h.withEngine hsound hg hready ?_⟩
  have hperm := h.pending.trans ((hloads.append_left _).trans List.perm_middle)
  -- the errand of the flight is none that such an answer ends
  have hnone : (c.engine.flight.errand?.toList).eraseP
      (Event.turn (.loaded n answer) : Event Step).ends = c.engine.flight.errand?.toList :=
    List.eraseP_of_forall_not fun errand _ => by simp [Event.ends]
  unfold Course.pendingAfter
  rw [hnone]
  exact (List.perm_cons _).1 hperm

end Follows

/-- The event of the engine that an answer of the store is. -/
def StoreAnswer.event : StoreAnswer → Event Step
  | saved r => .turn (.updated r)
  | reloaded r => .turn (.reloaded r)
  | loaded load _ r => .turn (.loaded load r)

theorem takeOff_follows (h : Follows [.takeOff] s c) (hsound : c.Sound) :
    c.Ready (.turn .takeOff) ∧
      Follows [] (s.withEngine (s.engine.takeOff acting)) (c.after acting (.turn .takeOff)) := by
  refine h.serve nofun hsound (by rw [h.engine]; rfl) ?_ rfl
  rintro (_ | _ | _) hpending <;> first | rfl | cases hpending

theorem Follows.finish (h : Follows arrived s c) (number : Nat) (o : Outcome) :
    Follows arrived (s.finish number o) c :=
  h.of_eq rfl rfl rfl

theorem Follows.afterLoad (h : Follows arrived s c) (asker : Asker) (r : Except Failure Unit) :
    Follows arrived (s.afterLoad asker r) c := by
  cases asker with
  | task n => exact h.finish n _
  | panel n => exact h.finish n _
  | service =>
    unfold Session.afterLoad
    dsimp only
    split
    · exact h
    · split
      · exact h
      · exact h.of_eq rfl rfl rfl

/-- An answer is handed over. -/
theorem deliver_follows {a : StoreAnswer} (h : Follows [a.pending] s c) (hsound : c.Sound) :
    c.Ready a.event ∧ Follows [] (s.deliver a) (c.after acting a.event) := by
  cases a with
  | saved r =>
    refine h.serve nofun hsound (by rw [h.engine]; rfl) ?_ rfl
    rintro (_ | _ | _) hpending <;> first | rfl | cases hpending
  | reloaded r =>
    refine h.serve nofun hsound (by rw [h.engine]; rfl) ?_ rfl
    rintro (_ | _ | _) hpending <;> first | rfl | cases hpending
  | loaded n asker r =>
    obtain ⟨hready, hfollows⟩ := h.load (g := (s.engine.finishLoad n r).1) hsound
      (by rw [h.engine]; rfl)
    exact ⟨hready, hfollows.afterLoad asker _⟩

/-! ## Calls -/

/-- A call that does not ask for a load. -/
theorem call_follows (h : Follows arrived s c) (hsound : c.Sound) (call : Call Step)
    (hcall : call ≠ .refresh ∨ s.engine.closed = true) :
    Follows arrived (s.withEngine (s.engine.call acting call)) (c.after acting (.call call)) := by
  refine h.event hsound (by rw [h.engine]; rfl) trivial rfl ?_
  cases call with
  | refresh =>
    have hclosed : c.engine.closed = true := h.engine ▸ hcall.resolve_left (fun h => h rfl)
    exact if_pos hclosed
  | change | discard | flushNow | close | subscribe | unsubscribe => rfl

/-- The course goes on by events that can happen. -/
def Leads (c c' : Course Step) : Prop :=
  c.Leads (fun _ _ => True) (Listening fun _ _ => True) c'

theorem leads_event {ev : Event Step} (hready : c.Ready ev) : Leads c (c.after acting ev) :=
  Course.Leads.refl.step acting_listening hready trivial

theorem leads_call (c : Course Step) (call : Call Step) : Leads c (c.after acting (.call call)) :=
  leads_event trivial

theorem Follows.closeAll (h : Follows arrived s c) (hsound : c.Sound) :
    Follows arrived s.closeAll (c.after acting (.call .close)) :=
  (call_follows h hsound .close (.inl nofun)).of_eq rfl rfl rfl

/-- One who waited for a flight asks nothing of the engine, but for the service, which may close
it. -/
theorem Follows.afterFlight (h : Follows arrived s c) (hsound : c.Sound) (asker : Asker)
    (r : Except Failure Unit) :
    ∃ c', Leads c c' ∧ Follows arrived (s.afterFlight asker r) c' := by
  cases asker with
  | task n => exact ⟨c, .refl, h.finish n _⟩
  | panel n => exact ⟨c, .refl, h.finish n _⟩
  | service =>
    cases r with
    | ok u => exact ⟨_, leads_call c .close, h.closeAll hsound⟩
    | error f => exact ⟨c, .refl, h.of_eq rfl rfl rfl⟩

theorem startFlush_follows (h : Follows arrived s c) (hsound : c.Sound) (asker : Asker) :
    ∃ c', Leads c c' ∧ Follows arrived (s.startFlush asker) c' := by
  have hflush : Follows arrived (s.withEngine s.engine.flushNow.1) _ :=
    call_follows h hsound .flushNow (.inl nofun)
  have hlanding (r : Except Failure Unit) : ∃ c', Leads c c' ∧
      Follows arrived ((s.withEngine s.engine.flushNow.1).afterFlight asker r) c' := by
    obtain ⟨c', hleads, hfollows⟩ := hflush.afterFlight (hsound.after acting_listening _) asker r
    exact ⟨c', (leads_call c .flushNow).trans hleads, hfollows⟩
  unfold startFlush
  rcases hnow : s.engine.flushNow with ⟨g, f | _ | _⟩ <;> rw [hnow] at hflush hlanding
  · exact hlanding _
  · exact hlanding _
  · exact ⟨_, leads_call c .flushNow, hflush.of_eq rfl rfl rfl⟩

/-- A load that is still to be asked for is asked for. -/
theorem Follows.call {n : Nat} (h : Follows (.load n :: arrived) s c) (asker : Asker) :
    Follows arrived (s.call (.refresh n asker)) c := by
  obtain ⟨i, hstands, hadds⟩ := s.call_adds (.refresh n asker)
  have hone : List.filterMap Item.pending? [i] = [.load n] := by
    simp [hstands.pending?, Caller.pending]
  refine ⟨hadds.engine.trans h.engine, (hadds.sent.trans (List.append_nil _)).trans h.sent, ?_, ?_⟩
  · have hperm := hadds.items.filterMap Item.pending?
    rw [List.filterMap_append, hone] at hperm
    exact (hperm.append_left arrived).trans (List.perm_middle.trans h.pending)
  · refine h.timed.later (.of_eq hadds.engine) (hadds.expires fun i' hi' name number heq => ?_)
    cases List.mem_singleton.1 hi'
    subst heq
    cases hstands.pending?

theorem startRefresh_follows (h : Follows arrived s c) (hsound : c.Sound) (asker : Asker) :
    ∃ c', Leads c c' ∧ Follows arrived (s.startRefresh asker) c' := by
  cases hclosed : s.engine.closed with
  | true =>
    have hrefresh : Follows arrived (s.withEngine s.engine.refresh.1) _ :=
      call_follows h hsound .refresh (.inr hclosed)
    have heq : s.engine.refresh = (s.engine, .error .engineClosed) := by
      simp [Engine.refresh, hclosed]
    rw [heq] at hrefresh
    unfold startRefresh
    rw [heq]
    exact ⟨_, leads_call c .refresh, hrefresh.afterLoad asker _⟩
  | false =>
    have heq : s.engine.refresh = (s.engine.startLoad, .ok ()) := by
      simp [Engine.refresh, hclosed]
    have hloads : c.loadsAfter (.call .refresh) = c.loads ++ [s.engine.loads + 1] := by
      rw [h.engine] at hclosed ⊢
      exact if_neg (by simp [hclosed])
    have hasked : Follows (.load (s.engine.loads + 1) :: arrived) (s.withEngine s.engine.startLoad)
        (c.after acting (.call .refresh)) := by
      refine h.withEngine hsound ?_ trivial ?_
      · rw [h.engine] at heq ⊢
        exact (congrArg Prod.fst heq).symm
      · unfold Course.pendingAfter
        rw [hloads, List.map_append, ← List.append_assoc,
          List.eraseP_of_forall_not fun errand _ => by simp [Event.ends]]
        exact (h.pending.cons _).trans (List.perm_append_singleton _ _).symm
    unfold startRefresh
    rw [heq]
    exact ⟨_, leads_call c .refresh, hasked.call asker⟩

/-! ## Requests -/

/-- What a handler with a document does to the engine is one call of it, if anything. -/
def Calls (acting : Engine.Acting ω)
    (serve : Engine ω → Option Json → Engine ω × Panel.Answer) : Prop :=
  ∀ g document?, (serve g document?).1 = g ∨
    ∃ call, call ≠ .refresh ∧ (serve g document?).1 = g.call acting call

theorem calls_edit (acting : Engine.Acting ω) (key : String) :
    Calls acting fun g document? => Panel.edit acting g key document? := by
  intro g document?
  dsimp only
  unfold Panel.edit
  split
  · exact .inl rfl
  · rename_i request _
    split
    · exact .inl rfl
    · refine .inr ⟨.change key request.value, nofun, ?_⟩
      change _ = (g.change acting key request.value).1
      split <;> simp_all

theorem calls_discard (acting : Engine.Acting ω) : Calls acting (Panel.discard acting) := by
  intro g document?
  unfold Panel.discard
  split
  · exact .inl rfl
  · rename_i request? _
    refine .inr ⟨.discard (request?.bind (·.keys)), nofun, ?_⟩
    change _ = (g.discard acting _).1
    split <;> simp_all

/-- What a request can lead to: a task, or an answer, perhaps after a call of the engine. -/
inductive Serves (acting : Engine.Acting ω) (g? : Option (Engine ω)) : Panel.Course ω → Prop where
  | refresh : Serves acting g? .refresh
  | flush : Serves acting g? .flush
  | looked (a : Panel.Answer) : Serves acting g? (.answer g? a)
  | called {g : Engine ω} (call : Call ω) (a : Panel.Answer) : g? = some g → call ≠ .refresh →
      Serves acting g? (.answer (some (g.call acting call)) a)

/-- Handlers of an open engine. -/
theorem serves_withEngine {acting : Engine.Acting ω} {g? : Option (Engine ω)}
    {serve : Engine ω → Panel.Course ω} :
    (∀ g, g? = some g → Serves acting g? (serve g)) →
      Serves acting g?
        (match g? with
          | some g => if g.closed then .answer g? .noEngine else serve g
          | none => .answer none .noEngine) := by
  intro h
  cases g? with
  | none => exact .looked _
  | some g =>
    dsimp only
    split
    · exact .looked _
    · exact h g rfl

/-- Handlers that get a document. -/
theorem serves_withDocument {acting : Engine.Acting ω} (g? : Option (Engine ω))
    (r : Panel.Request) {serve : Engine ω → Option Json → Engine ω × Panel.Answer}
    (h : Calls acting serve) :
    Serves acting g?
      (match r.document? with
        | .error a => .answer g? a
        | .ok document? =>
          match g? with
          | some g =>
            if g.closed then .answer g? .noEngine
            else .answer (some (serve g document?).1) (serve g document?).2
          | none => .answer none .noEngine) := by
  split
  · exact .looked _
  · rename_i document? _
    refine serves_withEngine fun g hg => ?_
    subst hg
    obtain heq | ⟨call, hcall, heq⟩ := h g document? <;> rw [heq]
    · exact .looked _
    · exact .called call _ rfl hcall

theorem serve_serves (acting : Engine.Acting ω) (g? : Option (Engine ω)) (breakers : Breakers)
    (r : Panel.Request) : Serves acting g? (Panel.serve acting g? breakers r) := by
  unfold Panel.serve
  split
  · rename_i route _
    cases route with
    | health => exact .looked _
    | view | saveState => exact serves_withEngine fun _ _ => .looked _
    | refresh => exact serves_withEngine fun _ _ => .refresh
    | flush => exact serves_withEngine fun _ _ => .flush
    | edit key => exact serves_withDocument g? r (calls_edit acting key)
    | discard => exact serves_withDocument g? r (calls_discard acting)
  · exact .looked _
  · exact .looked _
  · exact .looked _

/-- An engine that has asked for nothing stays as it is. -/
theorem withEngine_self (s : Session) (h : s.engine.outbox = []) : s.withEngine s.engine = s := by
  unfold withEngine
  rw [h]
  have hengine : ({ s.engine with outbox := [] } : Engine Step) = s.engine := by rw [← h]
  rw [hengine]
  rfl

theorem serve_follows (h : Follows arrived s c) (hsound : c.Sound) (n : Nat) (r : Panel.Request) :
    ∃ c', Leads c c' ∧ Follows arrived (s.serve n r) c' := by
  have hself : s.withEngine s.engine = s := s.withEngine_self (h.engine ▸ hsound.said)
  have hserves := serve_serves acting (if s.attached then some s.engine else none) s.breakers r
  unfold serve
  dsimp only
  generalize Panel.serve acting _ s.breakers r = course at hserves ⊢
  cases hserves with
  | refresh => exact startRefresh_follows h hsound (.panel n)
  | flush => exact startFlush_follows h hsound (.panel n)
  | looked a =>
    refine ⟨c, .refl, ?_⟩
    have hengine : (if s.attached then some s.engine else none).getD s.engine = s.engine := by
      split <;> rfl
    dsimp only
    rw [hengine, hself]
    exact h.finish n _
  | @called g call a hg hcall =>
    have hg : s.engine = g := by
      split at hg <;> cases hg
      rfl
    subst hg
    exact ⟨_, leads_call c call, (call_follows h hsound call (.inl hcall)).finish n _⟩

theorem begin_follows (h : Follows arrived s c) (hsound : c.Sound) (n : Nat) (work : Work) :
    ∃ c', Leads c c' ∧ Follows arrived (s.begin n work) c' := by
  cases work with
  | flushNow => exact startFlush_follows h hsound (.task n)
  | refresh => exact startRefresh_follows h hsound (.task n)
  | request r => exact serve_follows h hsound n r

/-! ## Steps -/

theorem startTask_follows (h : Follows arrived s c) (hsound : c.Sound) (work : Work) :
    ∃ c', Leads c c' ∧ Follows arrived (s.startTask work).1 c' := by
  have htask : Follows arrived { s with tasks := s.tasks + 1 } c := h.of_eq rfl rfl rfl
  exact begin_follows htask hsound s.tasks work

theorem perform_follows (h : Follows arrived s c) (hsound : c.Sound) (step : Step) :
    ∃ c', Leads c c' ∧ Follows arrived (s.perform step).1 c' := by
  have hcall (call : Call Step) (hcall : call ≠ .refresh) : ∃ c', Leads c c' ∧
      Follows arrived (s.withEngine (s.engine.call acting call)) c' :=
    ⟨_, leads_call c call, call_follows h hsound call (.inl hcall)⟩
  cases step with
  | change key value => exact hcall (.change key value) nofun
  | discard keys? => exact hcall (.discard keys?) nofun
  | close => exact hcall .close nofun
  | subscribe listener statuses act? => exact hcall (.subscribe listener _) nofun
  | unsubscribe handle => exact hcall (.unsubscribe handle) nofun
  | effective | warning | warnings | catalog => exact ⟨c, .refl, h⟩
  | flushNow => exact startTask_follows h hsound .flushNow
  | refresh => exact startTask_follows h hsound .refresh
  | request r => exact startTask_follows h hsound (.request r)
  | fail | store | release | server | trip | detach =>
    exact ⟨c, .refl, h.gains (s.arrange_gains _)⟩

/-! ## Jobs -/

theorem expire?_eq_some {t t' : Timer} {number : Nat} (h : t.expire? number = some t') :
    t' = t.cancel := by
  unfold Timer.expire? at h
  split at h <;> cases h
  rfl

/-- An expiry that still counts is a turn of the engine. -/
theorem expire_cases {timer : TimerName} {number : Nat}
    (htimely : s.Timely (.expiry timer number)) :
    s.expire timer number = s ∨
      ∃ t, (t = .quietOver ∨ t = .shownOver) ∧
        s.expire timer number = s.withEngine (s.engine.turn acting t) ∧
        ∀ c : Course Step, s.engine = c.engine → c.Ready (.turn t) := by
  unfold expire
  dsimp only
  cases timer with
  | quiet =>
    dsimp only
    split
    · rename_i quiet hexpire
      refine .inr ⟨.quietOver, .inl rfl, ?_, fun c hengine => ?_⟩
      · rw [expire?_eq_some hexpire]
        rfl
      · have hdue := htimely quiet hexpire
        unfold now timer at hdue
        rwa [hengine] at hdue
    · exact .inl rfl
  | shown =>
    dsimp only
    split
    · rename_i shown hexpire
      refine .inr ⟨.shownOver, .inr rfl, ?_, fun c hengine => ?_⟩
      · rw [expire?_eq_some hexpire]
        rfl
      · have hdue := htimely shown hexpire
        unfold now timer at hdue
        rwa [hengine] at hdue
    · exact .inl rfl

/-- A call that goes on has an answer that fits it. -/
theorem releasedAnswer_spec (s : Session) (caller : Caller) (failure? : Option Failure)
    (seed? : Option Seed) :
    Aside s (s.releasedAnswer caller failure? seed?).1 ∧
      (s.releasedAnswer caller failure? seed?).2.Fits caller := by
  have hover := s.aside_callOver caller.kind
  unfold releasedAnswer
  dsimp only
  cases failure? with
  | some f => exact ⟨hover, failedAnswer_fits f caller⟩
  | none => exact ⟨hover.trans (aside_ask _ _ caller), ask_fits _ _ caller⟩

/-- What a job brings is handed over, and the course goes on. -/
theorem turn_follows {j : Job} (h : Follows j.pending?.toList s c) (hsound : c.Sound)
    (htimely : s.Timely j) : ∃ c', Leads c c' ∧ Follows [] (s.turn j) c' := by
  cases j with
  | step step =>
    obtain ⟨c', hleads, hfollows⟩ := perform_follows h hsound step
    exact ⟨c', hleads, hfollows.of_eq rfl rfl rfl⟩
  | begin n work => exact begin_follows h hsound n work
  | takeOff =>
    obtain ⟨hready, hfollows⟩ := takeOff_follows h hsound
    exact ⟨_, leads_event hready, hfollows⟩
  | expiry timer number =>
    change ∃ c', _ ∧ Follows _ (s.expire timer number) c'
    obtain heq | ⟨t, ht, heq, hready⟩ := expire_cases htimely <;> rw [heq]
    · exact ⟨c, .refl, h⟩
    · have hready := hready c h.engine
      refine ⟨_, leads_event hready, h.event hsound (by rw [h.engine]; rfl) hready ?_ ?_⟩ <;>
        obtain rfl | rfl := ht <;> rfl
  | released caller failure? seed? =>
    obtain ⟨haside, hfits⟩ := s.releasedAnswer_spec caller failure? seed?
    have hanswer := h.gains haside.gains
    have harrived : (Job.released caller failure? seed?).pending?.toList =
        [(s.releasedAnswer caller failure? seed?).2.pending] := by
      rw [hfits.pending]
      rfl
    rw [harrived] at hanswer
    obtain ⟨hready, hfollows⟩ := deliver_follows hanswer hsound
    exact ⟨_, leads_event hready, hfollows⟩
  | answer a =>
    obtain ⟨hready, hfollows⟩ := deliver_follows h hsound
    exact ⟨_, leads_event hready, hfollows⟩
  | notify asker failure? =>
    exact ⟨c, .refl, Follows.gains h (s.push_gains trivial)⟩
  | wake asker failure? => exact h.afterFlight hsound asker _
  | startUp => exact startRefresh_follows h hsound .service
  | shutDown =>
    -- with nothing to save the engine is closed at once
    change ∃ c', _ ∧ Follows _ (if s.engine.edits.isEmpty then s.closeAll else _) c'
    split
    · exact ⟨_, leads_call c .close, h.closeAll hsound⟩
    · exact startFlush_follows h hsound .service

/-! ## Runs -/

/-- The session with a held call that is answered. -/
def answered (s : Session) (call : HeldCall) (a : StoreAnswer) : Session :=
  ({ s with held := s.held.erase call }.callOver call.caller.kind).push (.answer a)

/-- What can happen to a session, as long as jobs of a kind come from outside: jobs are done in
their order, with all that is ready in one round, held calls of the store are answered in whatever
way, and time goes on. -/
inductive Runs (comes : Job → Prop) (s : Session) : List Job → Session → Prop where
  | refl : Runs comes s [] s
  | come {jobs : List Job} {s' : Session} (j : Job) :
      Runs comes s jobs s' → comes j → Runs comes s jobs (s'.push j)
  /-- The next job of the round is done. -/
  | turn {jobs rest : List Job} {s' : Session} {j : Job} :
      Runs comes s jobs s' → s'.round = j :: rest →
      Runs comes s (jobs ++ [j]) ({ s' with round := rest }.turn j)
  /-- A round is over, and the next one begins. -/
  | next {jobs : List Job} {s' : Session} :
      Runs comes s jobs s' → s'.round = [] → Runs comes s jobs s'.nextRound
  | answer {jobs : List Job} {s' : Session} (call : HeldCall) (a : StoreAnswer) :
      Runs comes s jobs s' → call ∈ s'.held → a.Fits call.caller →
      Runs comes s jobs (s'.answered call a)
  | wait {jobs : List Job} {s' : Session} (now : Rat) :
      Runs comes s jobs s' → s'.now ≤ now → Runs comes s jobs (s'.setClock now)

/-- A job that comes from outside: it brings nothing that was waited for. -/
def Job.Outside : Job → Prop
  | .step _ | .startUp | .shutDown => True
  | _ => False

theorem Job.Outside.idle {j : Job} (h : j.Outside) : j.Idle := by
  cases j <;> trivial

/-- The answer to a held call takes its place. -/
theorem items_answer {call : HeldCall} (hheld : call ∈ s.held) (a : StoreAnswer) :
    ∃ rest, s.items.Perm (.call call.caller :: rest) ∧
      (s.answered call a).items.Perm (.job (.answer a) :: rest) := by
  refine ⟨_, items_held hheld, ?_⟩
  rw [← (aside_callOver { s with held := s.held.erase call } call.caller.kind).items]
  exact items_push _ _

theorem Follows.turn {j : Job} {rest : List Job} (h : Follows [] s c)
    (hround : s.round = j :: rest) :
    Follows j.pending?.toList { s with round := rest } c := by
  refine ⟨h.engine, h.sent, ?_, h.timed.turn hround⟩
  have hpending :
      s.pending = j.pending?.toList ++ ({ s with round := rest } : Session).pending := by
    unfold Session.pending
    rw [items_round hround, List.filterMap_cons]
    cases hj : j.pending? <;> simp [Item.pending?, hj]
  rw [← hpending]
  exact h.pending

theorem Follows.next (h : Follows [] s c) (hround : s.round = []) :
    Follows [] s.nextRound c := by
  refine ⟨h.engine, h.sent, ?_, h.timed.next hround⟩
  have hdue : (s.dueJobs.map Item.job).filterMap Item.pending? = [] := by
    refine List.filterMap_eq_nil_iff.2 fun i hi => ?_
    obtain ⟨j, hj, rfl⟩ := List.mem_map.1 hi
    obtain ⟨name, a, -, rfl⟩ := mem_dueJobs hj
    rfl
  have hperm := (items_next hround).filterMap Item.pending?
  rw [List.filterMap_append, hdue] at hperm
  exact hperm.trans h.pending

theorem Follows.answer (h : Follows [] s c) {call : HeldCall} (hheld : call ∈ s.held)
    {a : StoreAnswer} (hfits : a.Fits call.caller) :
    Follows [] (s.answered call a) c := by
  obtain ⟨rest, hbefore, hafter⟩ := items_answer hheld a
  have hover := aside_callOver { s with held := s.held.erase call } call.caller.kind
  refine ⟨hover.engine.trans h.engine, hover.sent.trans h.sent, ?_, ?_⟩
  · have hcaller : List.filterMap Item.pending? (.call call.caller :: rest) =
        List.filterMap Item.pending? (.job (.answer a) :: rest) := by
      simp [Item.pending?, Job.pending?, hfits.pending]
    have hperm := hafter.filterMap Item.pending?
    rw [← hcaller] at hperm
    exact hperm.trans ((hbefore.filterMap Item.pending?).symm.trans h.pending)
  · refine h.timed.later (.of_eq hover.engine) fun name number hexpires => ?_
    obtain hnew | hmem := List.mem_cons.1 (hafter.subset hexpires)
    · cases hnew
    · exact hbefore.symm.subset (List.mem_cons_of_mem _ hmem)

theorem Follows.wait (h : Follows [] s c) (hsound : c.Sound) {now : Rat} (hnow : s.now ≤ now) :
    c.Ready (.wait (now - s.now)) ∧
      Follows [] (s.setClock now) (c.after acting (.wait (now - s.now))) := by
  have hready : c.Ready (.wait (now - s.now)) := (Rat.le_iff_sub_nonneg _ _).1 hnow
  have hclock : { s.engine with now } = c.engine.after acting (.wait (now - s.now)) := by
    have hsum : c.engine.now + (now - s.now) = now := by
      unfold Session.now
      rw [h.engine]
      grind
    change _ = { c.engine with now := c.engine.now + (now - s.now) }
    rw [hsum, h.engine]
  have hsaid : s.engine.outbox = [] := h.engine ▸ hsound.said
  have hevent := h.event hsound hclock hready rfl rfl
  have hself : s.withEngine { s.engine with now } = s.setClock now :=
    (s.setClock now).withEngine_self hsaid
  exact ⟨hready, hself ▸ hevent⟩

/-- Doing all that is left to do is one of the things that can happen. -/
theorem Runs.settled {comes : Job → Prop} {jobs : List Job} (h : Runs comes s jobs s')
    (count : Nat) : ∃ jobs', Runs comes s jobs' (s'.settle count) := by
  -- each pass does the next job, or begins the next round
  induction count generalizing jobs s' with
  | zero => exact ⟨jobs, h⟩
  | succ count ih =>
    unfold settle
    split
    · rename_i hround
      exact ih (h.turn hround)
    · rename_i hround
      split
      · exact ⟨jobs, h⟩
      · exact ih (h.next hround)

/-- A session at its start, over a store with the given values. -/
def Fresh (s : Session) : Prop :=
  ∃ seed metas rules quiet shown closable, s = { new seed metas rules quiet shown with closable }

theorem Fresh.follows (h : s.Fresh) :
    ∃ c, c.Reachable (fun _ _ => True) (Listening fun _ _ => True) ∧ Follows [] s c := by
  obtain ⟨seed, metas, rules, quiet, shown, closable, rfl⟩ := h
  refine ⟨.start metas rules quiet shown, ⟨metas, rules, quiet, shown, .refl⟩, rfl, rfl, .refl _,
    fun name a ha => ?_, fun _ _ hexpires => (List.not_mem_nil hexpires).elim⟩
  cases name <;> cases ha

/-- Whatever happens to a session, its engine is one in the course of events. -/
theorem Runs.follows {comes : Job → Prop} {jobs : List Job} (h : Runs comes s jobs s')
    (hcomes : ∀ j, comes j → j.Outside) (hfresh : s.Fresh) :
    ∃ c, c.Reachable (fun _ _ => True) (Listening fun _ _ => True) ∧ Follows [] s' c := by
  -- the course goes on with the session: by one job at a time, and by the time that goes by
  induction h with
  | refl => exact hfresh.follows
  | come j _ hj ih =>
    -- a job from outside is under way, but it brings no answer
    obtain ⟨c, hreach, hfollows⟩ := ih
    exact ⟨c, hreach, hfollows.gains (push_gains _ (hcomes j hj).idle)⟩
  | turn _ hround ih =>
    obtain ⟨c, hreach, hfollows⟩ := ih
    obtain ⟨c', hleads, hafter⟩ :=
      turn_follows (hfollows.turn hround) hreach.sound (hfollows.timed.timely_head hround)
    exact ⟨c', hreach.trans hleads, hafter⟩
  | next _ hround ih =>
    obtain ⟨c, hreach, hfollows⟩ := ih
    exact ⟨c, hreach, hfollows.next hround⟩
  | answer call a _ hheld hfits ih =>
    obtain ⟨c, hreach, hfollows⟩ := ih
    exact ⟨c, hreach, hfollows.answer hheld hfits⟩
  | wait now _ hnow ih =>
    obtain ⟨c, hreach, hfollows⟩ := ih
    obtain ⟨hready, hafter⟩ := hfollows.wait hreach.sound hnow
    exact ⟨_, hreach.trans (leads_event hready), hafter⟩

end Session

end DeferredSave
