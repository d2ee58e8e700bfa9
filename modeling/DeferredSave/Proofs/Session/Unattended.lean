import DeferredSave.Proofs.Course.Undisturbed
import DeferredSave.Proofs.Session.Following

/-!
# A session that is left alone

Where nothing comes from outside and no listener does anything, each job of a session either hands
its flight what it waits for, or leaves the flight alone (`Session.turn_other`). In the first case
the session goes on with the one thing that the flight asks for next, or all who wait for it are
told that it is over.
-/

namespace DeferredSave

/-- What the engine does by itself where listeners do nothing. -/
theorem Course.after_of_passive {ω : Type} (acting : Engine.Acting ω) {c : Course ω}
    (h : c.engine.Passive) (t : Turn) : c.after acting (.turn t) = c.after .silent (.turn t) := by
  have hengine : c.engine.after acting (.turn t) = c.engine.after .silent (.turn t) :=
    Engine.turn_of_passive acting h t
  unfold Course.after
  rw [hengine]

namespace Session

variable {s s' s'' : Session} {c c' : Course Step} {j : Job}

/-! ## Jobs and calls -/

def Caller.Other : Caller → Prop
  | refresh _ asker => asker ≠ .service
  | save _ | reload => True

/-- The job is part of what is under way already, and is not done for the service as a whole. -/
def Job.Other : Job → Prop
  | step _ | begin .. | startUp | shutDown => False
  | released caller .. => caller.Other
  | answer (.loaded _ asker _) => asker ≠ .service
  | notify asker _ | wake asker _ => asker ≠ .service
  | takeOff | expiry .. | answer (.saved _) | answer (.reloaded _) => True

def Item.Other : Item → Prop
  | job j => j.Other
  | call caller => caller.Other

theorem Item.Stands.other {caller : Caller} {i : Item} (h : i.Stands caller)
    (hother : caller.Other) : i.Other := by
  cases h with
  | held => exact hother
  | @answered a hfits =>
    cases a <;> cases caller <;> first | exact hfits.elim | trivial | exact hfits.2 ▸ hother

/-- A flight waits for it. -/
def Pending.ofFlight : Pending → Bool
  | takeOff | update | reload => true
  | load _ => false

/-- The load after a save fails in a way that is not foreseen. -/
def Job.Breaks : Job → Prop
  | answer (.reloaded (.error f)) => f.isFetch = false
  | released .reload (some f) _ => f.isFetch = false
  | _ => False

theorem StoreAnswer.foreseen_iff (a : StoreAnswer) :
    a.event.Foreseen ↔ ¬ (Job.answer a).Breaks := by
  rcases a with r | (f | categories) | _ <;>
    simp [StoreAnswer.event, Event.Foreseen, Job.Breaks]

/-! ## What the flight asks for -/

/-- The session `s'` has some jobs and calls more than `s`, none of which is done for the service as
a whole. -/
def Extends (s s' : Session) : Prop :=
  ∃ items batches, (∀ i ∈ items, i.Other) ∧ Adds items batches s s'

theorem Aside.extends (h : Aside s s') : Extends s s' := by
  refine ⟨[], [], List.forall_mem_nil _, h.toBeside, ?_, h.sent.trans (List.append_nil _).symm⟩
  rw [h.items, List.nil_append]

theorem extends_refl (s : Session) : Extends s s := (Aside.refl s).extends

theorem Extends.trans (h : Extends s s') (h' : Extends s' s'') : Extends s s'' := by
  obtain ⟨items, batches, hother, hadds⟩ := h
  obtain ⟨items', batches', hother', hadds'⟩ := h'
  refine ⟨items' ++ items, batches ++ batches', ?_, hadds.toBeside.trans hadds'.toBeside, ?_, ?_⟩
  · intro i hi
    exact (List.mem_append.1 hi).elim (hother' i) (hother i)
  · rw [List.append_assoc]
    exact hadds'.items.trans (hadds.items.append_left _)
  · rw [hadds'.sent, hadds.sent, List.append_assoc]

theorem extends_call (s : Session) (caller : Caller) (hother : caller.Other) :
    Extends s (s.call caller) := by
  obtain ⟨i, hstands, hadds⟩ := s.call_adds caller
  refine ⟨[i], _, fun i' hi' => ?_, hadds⟩
  cases List.mem_singleton.1 hi'
  exact hstands.other hother

theorem extends_push (s : Session) {j : Job} (hother : j.Other) : Extends s (s.push j) := by
  refine ⟨[.job j], [], fun i' hi' => ?_, s.adds_push j⟩
  cases List.mem_singleton.1 hi'
  exact hother

/-- A flight that is not over asks for one thing. -/
theorem extends_oblige (s : Session) (failure? : Option Failure) {flight : Flight}
    (h : flight ≠ .none) : Extends s (s.oblige (flight.effect failure?)) := by
  cases flight with
  | none => exact (h rfl).elim
  | waiting => exact s.extends_push trivial
  | saving batch => exact s.extends_call (.save batch) trivial
  | reloading batch rows load => exact s.extends_call .reload trivial

/-! ## Jobs of a session that is left alone -/

/-- How the course and the session go on when a job is done. -/
inductive Moves (s : Session) (c : Course Step) (j : Job) (s' : Session) (c' : Course Step) :
    Prop where
  /-- What the flight has waited for is handed over. -/
  | serves {ev : Event Step} {n : Nat} {failure? : Option Failure} :
      ev.serves = true → c.Ready ev → c' = c.after .silent ev →
      (ev.Foreseen ↔ ¬ j.Breaks) → j.pending?.any Pending.ofFlight = true →
      (c'.engine.flight ≠ .none → Extends { s with engine := c'.engine } s') →
      (c'.engine.flight = .none →
        Adds (s.waiting.map fun asker => .job (.notify asker failure?)) []
          { s with engine := c'.engine, waiting := [] } s') →
      c.engine.Passes n failure? (c.engine.after .silent ev) → n < c.engine.left →
      (c.engine.closed = false → (failure? = none ↔ ev.Foreseen ∧ ¬ c.engine.Stalled)) →
      Moves s c j s' c'
  /-- The flight is left alone. -/
  | rests : j.pending?.any Pending.ofFlight = false → ¬ j.Breaks →
      c.Leads (fun _ ev => ev.Foreseen ∧ ∀ call, ev ≠ .call call) (· = .silent) c' →
      c.engine.Rests c'.engine → Extends { s with engine := c'.engine } s' → Moves s c j s' c'

theorem withEngine_of_nothing (s : Session) {g : Engine Step} (h : g.outbox = []) :
    s.withEngine g = { s with engine := { g with outbox := [] } } := by
  unfold withEngine
  rw [h]
  rfl

theorem withEngine_of_effect (s : Session) {g : Engine Step} {e : Effect Step}
    (h : g.outbox = [e]) :
    s.withEngine g = oblige { s with engine := { g with outbox := [] } } e := by
  unfold withEngine
  rw [h]
  rfl

/-- No listener notices the turn of an engine whose listeners do nothing. -/
theorem turn_silent (hpassive : c.engine.Passive) (hengine : s.engine = c.engine) (t : Turn) :
    s.engine.turn acting t = c.engine.after .silent (.turn t) := by
  rw [hengine]
  exact Engine.turn_of_passive acting hpassive t

section

variable (hc : c.Reachable (fun _ _ => True) (Listening fun _ _ => True))
  (hpassive : c.engine.Passive) (hengine : s.engine = c.engine)
include hc hpassive hengine

/-- The flight gets what it has waited for. -/
theorem moves_serve {t : Turn} (hserves : (Event.turn t : Event Step).serves = true)
    (hready : c.Ready (.turn t)) (hbreaks : (Event.turn t : Event Step).Foreseen ↔ ¬ j.Breaks)
    (hj : j.pending?.any Pending.ofFlight = true) :
    Moves s c j (s.withEngine (s.engine.turn acting t)) (c.after acting (.turn t)) := by
  rw [turn_silent hpassive hengine, Course.after_of_passive acting hpassive t]
  obtain ⟨n, failure?, hleft, hpasses, hnone⟩ := Course.passes_after hc hready hserves
  have houtbox : (c.engine.after .silent (.turn t)).outbox =
      [(c.engine.after .silent (.turn t)).flight.effect failure?] := by
    rw [hpasses.outbox, hc.sound.said]
    rfl
  have hsession := s.withEngine_of_effect houtbox
  refine .serves hserves hready rfl hbreaks hj ?_ ?_ hpasses hleft hnone
  · intro hflies
    rw [hsession]
    exact extends_oblige _ failure? hflies
  · intro hlands
    have hover : (c.engine.after .silent (.turn t)).flight.effect failure? =
        (.landed failure? : Effect Step) := by
      have hlands : (c.engine.after .silent (.turn t)).flight = .none := hlands
      rw [hlands]
      rfl
    rw [hsession, hover]
    exact landed_adds
      { s with engine := { c.engine.after .silent (.turn t) with outbox := [] } } failure?

/-- The engine does something else by itself. -/
theorem moves_rest {t : Turn} (hready : c.Ready (.turn t))
    (hforeseen : (Event.turn t : Event Step).Foreseen)
    (hserves : (Event.turn t : Event Step).serves = false)
    (hquiet : (Event.turn t : Event Step) = .turn .quietOver → c.engine.closed = true)
    (hj : j.pending?.any Pending.ofFlight = false) (hbreaks : ¬ j.Breaks) :
    Moves s c j (s.withEngine (s.engine.turn acting t)) (c.after acting (.turn t)) := by
  rw [turn_silent hpassive hengine, Course.after_of_passive acting hpassive t]
  have hrests : c.engine.Rests (c.engine.after .silent (.turn t)) :=
    c.rests_after nofun hserves hquiet
  have houtbox : (c.engine.after .silent (.turn t)).outbox = [] :=
    hrests.outbox.trans hc.sound.said
  refine .rests hj hbreaks (Course.Leads.refl.step rfl hready ⟨hforeseen, nofun⟩) ?_ ?_
  · rw [c.engine_after_of_rests hrests hc.sound.said]
    exact hrests
  · rw [s.withEngine_of_nothing houtbox]
    exact extends_refl _

end

/-- The job changes nothing of the engine. -/
theorem moves_nothing (hengine : s.engine = c.engine) (hj : j.pending?.any Pending.ofFlight = false)
    (hbreaks : ¬ j.Breaks) (hextends : Extends s s') : Moves s c j s' c := by
  refine .rests hj hbreaks .refl (.refl _) ?_
  rw [← hengine]
  exact hextends

theorem Adds.aside {items : List Item} {batches : List Batch} (h : Adds items batches s s')
    (haside : Aside s' s'') : Adds items batches s s'' where
  toBeside := h.toBeside.trans haside.toBeside
  items := haside.items ▸ h.items
  sent := haside.sent.trans h.sent

theorem Adds.of_aside {items : List Item} {batches : List Batch} (haside : Aside s s')
    (h : Adds items batches s' s'') : Adds items batches s s'' where
  toBeside := haside.toBeside.trans h.toBeside
  items := haside.items ▸ h.items
  sent := haside.sent ▸ h.sent

/-- What is done besides makes no difference. -/
theorem Moves.aside (h : Moves s c j s' c') (haside : Aside s' s'') : Moves s c j s'' c' := by
  cases h with
  | serves hserves hready heq hbreaks hj hflies hlands hpasses hleft hnone =>
    exact .serves hserves hready heq hbreaks hj (fun hf => (hflies hf).trans haside.extends)
      (fun hl => (hlands hl).aside haside) hpasses hleft hnone
  | rests hj hbreaks hleads hrests hextends =>
    exact .rests hj hbreaks hleads hrests (hextends.trans haside.extends)

theorem Moves.of_aside (haside : Aside s s') (h : Moves s' c j s'' c') : Moves s c j s'' c' := by
  have hengine (g : Engine Step) : Aside { s with engine := g } { s' with engine := g } :=
    ⟨⟨rfl, haside.waiting, haside.stage, haside.closable, haside.storeClosed⟩, haside.round,
      haside.queue, haside.held, haside.sent⟩
  cases h with
  | serves hserves hready heq hbreaks hj hflies hlands hpasses hleft hnone =>
    refine .serves hserves hready heq hbreaks hj (fun hf => (hengine _).extends.trans (hflies hf))
      (fun hl => ?_) hpasses hleft hnone
    have hadds := hlands hl
    rw [haside.waiting] at hadds
    refine .of_aside ?_ hadds
    exact ⟨⟨rfl, rfl, haside.stage, haside.closable, haside.storeClosed⟩, haside.round,
      haside.queue, haside.held, haside.sent⟩
  | rests hj hbreaks hleads hrests hextends =>
    exact .rests hj hbreaks hleads hrests ((hengine _).extends.trans hextends)

theorem aside_finish (s : Session) (number : Nat) (o : Outcome) : Aside s (s.finish number o) :=
  ⟨⟨rfl, rfl, rfl, rfl, rfl⟩, rfl, rfl, rfl, rfl⟩

theorem aside_afterLoad (s : Session) {asker : Asker} (h : asker ≠ .service)
    (r : Except Failure Unit) : Aside s (s.afterLoad asker r) := by
  cases asker with
  | task n => exact s.aside_finish n _
  | panel n => exact s.aside_finish n _
  | service => exact (h rfl).elim

theorem aside_afterFlight (s : Session) {asker : Asker} (h : asker ≠ .service)
    (r : Except Failure Unit) : Aside s (s.afterFlight asker r) := by
  cases asker with
  | task n => exact s.aside_finish n _
  | panel n => exact s.aside_finish n _
  | service => exact (h rfl).elim

theorem releasedAnswer_breaks (s : Session) (caller : Caller) (failure? : Option Failure)
    (seed? : Option Seed) :
    (Job.answer (s.releasedAnswer caller failure? seed?).2).Breaks ↔
      (Job.released caller failure? seed?).Breaks := by
  cases caller <;> cases failure? <;> exact .rfl

section

variable (hc : c.Reachable (fun _ _ => True) (Listening fun _ _ => True))
  (hpassive : c.engine.Passive)
include hc hpassive

/-- An answer of the store is handed over. -/
theorem deliver_other {a : StoreAnswer} (h : Follows [a.pending] s c)
    (hother : (Job.answer a).Other) (hpending : j.pending? = some a.pending)
    (hbreaks : j.Breaks ↔ (Job.answer a).Breaks) :
    ∃ c', Follows [] (s.deliver a) c' ∧ Moves s c j (s.deliver a) c' := by
  obtain ⟨hready, hfollows⟩ := deliver_follows h hc.sound
  refine ⟨_, hfollows, ?_⟩
  have hforeseen : a.event.Foreseen ↔ ¬ j.Breaks := by rw [hbreaks, a.foreseen_iff]
  cases a with
  | saved r =>
    exact moves_serve hc hpassive h.engine rfl hready hforeseen (by rw [hpending]; rfl)
  | reloaded r =>
    exact moves_serve hc hpassive h.engine rfl hready hforeseen (by rw [hpending]; rfl)
  | loaded n asker r =>
    have hloaded : Moves s c j (s.withEngine (s.engine.turn acting (.loaded n r)))
        (c.after acting (.turn (.loaded n r))) :=
      moves_rest hc hpassive h.engine hready trivial rfl nofun (by rw [hpending]; rfl)
        (hforeseen.1 trivial)
    exact hloaded.aside (aside_afterLoad _ hother _)

/-- A job of a session that is left alone. -/
theorem turn_other (h : Follows j.pending?.toList s c) (hother : j.Other) (htimely : s.Timely j)
    (hquiet : c.engine.quiet.armed = false ∨ c.engine.closed = true) :
    ∃ c', Follows [] (s.turn j) c' ∧ Moves s c j (s.turn j) c' := by
  cases j with
  | step | begin | startUp | shutDown => exact hother.elim
  | takeOff =>
    obtain ⟨hready, hfollows⟩ := takeOff_follows h hc.sound
    have htrivial : (Event.turn .takeOff : Event Step).Foreseen ↔ ¬ Job.takeOff.Breaks :=
      iff_of_true trivial id
    exact ⟨_, hfollows, moves_serve hc hpassive h.engine rfl hready htrivial rfl⟩
  | expiry timer number =>
    change ∃ c', Follows [] (s.expire timer number) c' ∧
      Moves s c (.expiry timer number) (s.expire timer number) c'
    obtain heq | ⟨t, ht, heq, hready⟩ := expire_cases htimely <;> rw [heq]
    · exact ⟨c, h, moves_nothing h.engine rfl id (extends_refl s)⟩
    · have hready := hready c h.engine
      have hserves : (Event.turn t : Event Step).serves = false := by obtain rfl | rfl := ht <;> rfl
      have hloads : c.loadsAfter (.turn t) = c.loads := by obtain rfl | rfl := ht <;> rfl
      have hforeseen : (Event.turn t : Event Step).Foreseen := by
        obtain rfl | rfl := ht <;> trivial
      have hfollows := h.event (g := s.engine.turn acting t) hc.sound (by rw [h.engine]; rfl) hready
        hserves hloads
      refine ⟨_, hfollows, ?_⟩
      refine moves_rest hc hpassive h.engine hready hforeseen hserves ?_ rfl id
      rintro ⟨⟩
      -- a timer that is not armed does not expire
      refine hquiet.resolve_left fun hnone => ?_
      cases hnone.symm.trans (Timer.armed_of_due? hready)
  | released caller failure? seed? =>
    obtain ⟨haside, hfits⟩ := s.releasedAnswer_spec caller failure? seed?
    have hanswer := h.gains haside.gains
    have hpending : (Job.released caller failure? seed?).pending? =
        some (s.releasedAnswer caller failure? seed?).2.pending := congrArg some hfits.pending.symm
    rw [hpending] at hanswer
    obtain ⟨c', hfollows, hmoves⟩ := deliver_other hc hpassive hanswer
      ((Item.Stands.answered hfits).other hother) hpending
      (s.releasedAnswer_breaks caller failure? seed?).symm
    exact ⟨c', hfollows, hmoves.of_aside haside⟩
  | answer a => exact deliver_other hc hpassive h hother rfl .rfl
  | notify asker failure? =>
    have hpush : (Job.wake asker failure?).Other := hother
    exact ⟨c, Follows.gains h (s.push_gains trivial),
      moves_nothing h.engine rfl id (s.extends_push hpush)⟩
  | wake asker failure? =>
    have haside : Aside s (s.turn (.wake asker failure?)) := s.aside_afterFlight hother _
    exact ⟨c, Follows.gains h haside.gains, moves_nothing h.engine rfl id haside.extends⟩

end

end Session

end DeferredSave
