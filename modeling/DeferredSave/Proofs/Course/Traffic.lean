import DeferredSave.Proofs.Course.Ledger

/-!
# One save at a time

What flights wait for is kept here on a list of its own: the outbox puts an errand on it, and the
event that brings an errand about takes it off. Whether a flight takes off or is answered is read
off this list, and not off the engine. So nothing in the rules of the traffic keeps two saves from
being under way together; it is the engine that never asks for the second
(`Traffic.single_flight`).
-/

namespace DeferredSave

variable {ω : Type} {acting : Engine.Acting ω} {g g' : Engine ω}
  {admitted : Engine ω → Call ω → Prop}

/-! ## The errand of a flight -/

def Errand.batch? : Errand → Option Batch
  | update batch => some batch
  | takeOff | reload => none

/-- What a flight waits for where it is. -/
def Flight.errand? : Flight → Option Errand
  | none => Option.none
  | waiting => some .takeOff
  | saving batch => some (.update batch)
  | reloading .. => some .reload

namespace Event

/-- Whether the event brings about what a flight waits for. -/
def serves : Event ω → Bool
  | turn .takeOff | turn (.updated _) | turn (.reloaded _) => true
  | _ => false

/-- Whether the event brings the errand about. -/
def ends : Event ω → Errand → Bool
  | turn .takeOff, .takeOff => true
  | turn (.updated _), .update _ => true
  | turn (.reloaded _), .reload => true
  | _, _ => false

theorem ends_of_not_serves {ev : Event ω} (h : ev.serves = false) (errand : Errand) :
    ev.ends errand = false := by
  unfold serves at h
  unfold ends
  split at h <;> simp_all

end Event

namespace Engine

theorem errands_emit (g : Engine ω) (e : Effect ω) :
    (g.emit e).errands = g.errands ++ e.errand?.toList := by
  cases h : e.errand? <;> simp [errands, emit, List.filterMap_append, h]

/-- The batches that the outbox sends are those of its errands. -/
theorem sends_eq (g : Engine ω) : g.sends = g.errands.filterMap Errand.batch? := by
  unfold sends asks errands
  rw [List.filterMap_filterMap, List.filterMap_filterMap]
  congr 1
  funext e
  cases e <;> rfl

/-! ## What a stretch asks for -/

/-- The engine `g'` has asked for what its flight waits for, and for all that `g` has asked for. -/
def Posts (g g' : Engine ω) : Prop := g'.errands = g.errands ++ g'.flight.errand?.toList

theorem posts_land (h : g'.errands = g.errands) (failure? : Option Failure) :
    Posts g (g'.land failure?) := by
  have hland : (g'.land failure?).errands = g'.errands :=
    (errands_emit _ _).trans (List.append_nil _)
  exact (hland.trans h).trans (List.append_nil _).symm

theorem posts_launch (g : Engine ω) : Posts g g.launch := errands_emit _ _

theorem posts_reloads (g : Engine ω) (batch : Batch) (rows : List Setting) :
    Posts g (g.reloads batch rows) :=
  errands_emit _ _

theorem Posts.of_eq {g₀ : Engine ω} (h : Posts g g') (herrands : g.errands = g₀.errands) :
    Posts g₀ g' :=
  h.trans (congrArg (· ++ _) herrands)

section

variable (hlisten : Listening admitted acting)
include hlisten

theorem Told.errands {status : Status} (htold : Told acting status g g') :
    g'.errands = g.errands :=
  (htold.keeps (hlisten.beside g) (.refl g)).errands

theorem sendBatch_posts (g : Engine ω) : Posts g (g.sendBatch acting) := by
  rcases sendBatch_cases acting g with
    ⟨-, -, g', htold, heq⟩ | ⟨-, -, g', htold, heq⟩ | ⟨-, failure?, heq⟩
  · rw [heq]
    exact posts_land (htold.errands hlisten) none
  · have hsent : Posts g'
        ({ g' with flight := .saving g.edits.snapshot }.emit (.update g.edits.snapshot)) :=
      errands_emit _ _
    have herrands := htold.errands hlisten
    rw [heq]
    exact hsent.of_eq herrands
  · rw [heq]
    exact posts_land rfl failure?

theorem endRound_posts (g : Engine ω) : Posts g (g.endRound acting) := by
  rcases endRound_cases acting g with ⟨-, heq⟩ | ⟨-, heq⟩
  · rw [heq]
    exact sendBatch_posts hlisten { g with requested := false }
  · rw [heq]
    exact posts_land rfl none

theorem showSaved_posts (g : Engine ω) : Posts g (g.showSaved acting) := by
  rcases showSaved_cases acting g with ⟨-, g', htold, heq⟩ | ⟨-, g', htold, heq⟩
  · have herrands := htold.errands hlisten
    have hround := endRound_posts hlisten { g' with shown := g'.shown.arm g'.now }
    rw [heq]
    exact hround.of_eq herrands
  · have herrands := htold.errands hlisten
    rw [heq]
    exact (endRound_posts hlisten g').of_eq herrands

theorem confirm_posts (g : Engine ω) (batch : Batch) (rows : List Setting) (installed : Bool) :
    Posts g (g.confirm acting batch rows installed) := by
  rcases confirm_cases acting g batch rows installed with
    ⟨failure, -, heq⟩ | ⟨-, heq⟩ | ⟨-, heq⟩
  · rw [heq]
    exact posts_land rfl _
  · rw [heq]
    exact showSaved_posts hlisten (g.confirmed batch rows installed)
  · rw [heq]
    exact endRound_posts hlisten (g.confirmed batch rows installed)

theorem updated_posts {batch : Batch} (h : g.flight = .saving batch)
    (answer : Except Failure (List Setting)) : Posts g (g.updated acting answer) := by
  rcases updated_cases acting h answer with
    ⟨-, heq⟩ | ⟨-, rows, -, heq⟩ | ⟨-, f, -, ⟨-, failure?, heq⟩ | ⟨g', htold, heq⟩⟩
  · rw [heq]
    exact endRound_posts hlisten g
  · rw [heq]
    exact posts_reloads g batch rows
  · rw [heq]
    exact posts_land rfl failure?
  · have herrands := htold.errands hlisten
    rw [heq]
    exact (endRound_posts hlisten g').of_eq herrands

theorem reloaded_posts {batch : Batch} {rows : List Setting} {load : Nat}
    (h : g.flight = .reloading batch rows load) (answer : Except Failure Categories) :
    Posts g (g.reloaded acting answer) := by
  rcases reloaded_cases acting h answer with ⟨-, heq⟩ | ⟨f, -, -, heq⟩ | ⟨-, -, heq⟩
  · rw [heq]
    exact endRound_posts hlisten (g.withLoad load answer)
  · rw [heq]
    exact posts_land rfl (some f)
  · rw [heq]
    exact confirm_posts hlisten (g.withLoad load answer) batch rows _

end

/-! ## What an event asks for -/

/-- How an event deals with what the flight waits for. -/
inductive Forwards (g : Engine ω) (ev : Event ω) (g' : Engine ω) : Prop where
  | stays : ev.serves = false → g'.flight = g.flight → g'.errands = g.errands → Forwards g ev g'
  | launched : g.flight = .none → Posts g g' → Forwards g ev g'
  | served {errand : Errand} :
      g.flight.errand? = some errand → ev.ends errand = true → Posts g g' → Forwards g ev g'

theorem Forwards.of_beside {ev : Event ω} (h : Beside g g') (hserves : ev.serves = false) :
    Forwards g ev g' :=
  .stays hserves h.flight h.errands

section

variable (hlisten : Listening admitted acting)
include hlisten

theorem call_forwards (g : Engine ω) (c : Call ω) : Forwards g (.call c) (g.call acting c) := by
  cases hwaits : c.waits with
  | false => exact .of_beside (Beside.call (hlisten.beside g) (.refl g) hwaits) rfl
  | true =>
    cases c with
    | flushNow =>
      change Forwards g _ g.flushNow.1
      rcases flushNow_cases g with ⟨-, heq⟩ | ⟨-, -, heq⟩ | ⟨-, -, -, heq⟩ | ⟨-, hflying, -, heq⟩
      · exact .stays rfl (by rw [heq]) (by rw [heq])
      · exact .stays rfl (by rw [heq]) (by rw [heq]; rfl)
      · exact .stays rfl (by rw [heq]) (by rw [heq]; rfl)
      · -- only when no flight is under way another one is asked for
        rw [heq]
        exact .launched (flight_of_not_flying hflying)
          (posts_launch { g with quiet := g.quiet.cancel })
    | refresh =>
      change Forwards g _ g.refresh.1
      unfold refresh
      split <;> exact .stays rfl rfl rfl
    | change | discard | close | subscribe | unsubscribe => cases hwaits

omit hlisten in
theorem quietOver_forwards (acting : Acting ω) (g : Engine ω) :
    Forwards g (.turn .quietOver) (g.turn acting .quietOver) := by
  change Forwards g _ (quietOver _)
  rcases quietOver_cases { g with quiet := g.quiet.cancel } with
    ⟨-, heq⟩ | ⟨-, -, heq⟩ | ⟨-, hflying, heq⟩
  · exact .stays rfl (by rw [heq]) (by rw [heq]; rfl)
  · exact .stays rfl (by rw [heq]) (by rw [heq]; rfl)
  · rw [heq]
    exact .launched (flight_of_not_flying hflying) (posts_launch { g with quiet := g.quiet.cancel })

theorem shownOver_forwards (g : Engine ω) :
    Forwards g (.turn .shownOver) (g.turn acting .shownOver) := by
  change Forwards g _ (shownOver acting _)
  rcases shownOver_cases acting { g with shown := g.shown.cancel } with heq | ⟨-, -, htold⟩
  · exact .stays rfl (by rw [heq]) (by rw [heq]; rfl)
  · have herrands := htold.errands hlisten
    exact .stays rfl (htold.flight hlisten) herrands

/-- The engine asks for nothing on behalf of a flight while another errand is not done. -/
theorem after_forwards {c : Course ω} {ev : Event ω} (hready : c.Ready ev) :
    Forwards c.engine ev (c.engine.after acting ev) := by
  cases ev with
  | call call => exact call_forwards hlisten _ call
  | wait seconds => exact .stays rfl rfl rfl
  | turn t =>
    cases t with
    | quietOver => exact quietOver_forwards acting _
    | shownOver => exact shownOver_forwards hlisten _
    | takeOff =>
      have hwaiting : c.engine.flight = .waiting := hready
      have hposts := sendBatch_posts hlisten { c.engine with requested := false }
      exact .served (by rw [hwaiting]; rfl) rfl hposts
    | updated answer =>
      obtain ⟨batch, hflight⟩ := hready
      exact .served (by rw [hflight]; rfl) rfl (updated_posts hlisten hflight answer)
    | reloaded answer =>
      obtain ⟨batch, rows, load, hflight⟩ := hready
      exact .served (by rw [hflight]; rfl) rfl (reloaded_posts hlisten hflight answer)
    | loaded load answer =>
      change Forwards _ _ (c.engine.turn acting (.loaded load answer))
      rw [turn_loaded]
      exact .stays rfl rfl rfl

end

/-- With nothing else asked for, the errands are those of the flight before an event and after
it. -/
theorem Forwards.errands {ev : Event ω} (h : Forwards g ev g') (hsaid : g.errands = []) :
    g.flight.errand?.toList.eraseP ev.ends ++ g'.errands = g'.flight.errand?.toList := by
  cases h with
  | stays hserves hflight herrands =>
    rw [herrands, hsaid, List.append_nil, hflight]
    exact List.eraseP_of_forall_not fun errand _ => by simp [ev.ends_of_not_serves hserves]
  | launched hnone hposts =>
    rw [hposts, hsaid, hnone]
    rfl
  | served herrand hends hposts =>
    rw [hposts, hsaid, herrand]
    simp [hends]

end Engine

/-! ## The traffic -/

/-- An engine in the course of events, with what is under way for its flights. -/
structure Traffic (ω : Type) where
  course : Course ω
  /-- What was asked for on behalf of flights and was not brought about yet. -/
  errands : List Errand := []
  /-- Those who called for a save at once and wait for it. -/
  waiting : List Nat := []
  /-- The number of those who had to wait so far. -/
  callers : Nat := 0

namespace Traffic

/-- What happens in the traffic. -/
inductive Move (ω : Type) where
  | event (ev : Event ω)
  /-- One who waits for a flight does so no longer. The flight goes on without them. -/
  | giveUp (caller : Nat)

def start (metas : MetaTable) (rules : List CrossRule) (quietPeriod shownFor : Rat) : Traffic ω :=
  { course := .start metas rules quietPeriod shownFor }

/-- The batches that the store was called with and that it has not answered. -/
def updates (t : Traffic ω) : List Batch := t.errands.filterMap Errand.batch?

/-- Whether something can happen now. What brings an errand about needs such an errand, whatever the
engine takes its flight to be. -/
def Ready (t : Traffic ω) : Move ω → Prop
  | .event ev => if ev.serves then t.errands.any ev.ends = true else t.course.Ready ev
  | .giveUp caller => caller ∈ t.waiting

instance (t : Traffic ω) : (m : Move ω) → Decidable (t.Ready m)
  | .event ev =>
    inferInstanceAs (Decidable (if ev.serves then t.errands.any ev.ends = true else _))
  | .giveUp caller => inferInstanceAs (Decidable (caller ∈ t.waiting))

/-- What is still under way when an event happens, without what it brings about. -/
def left (t : Traffic ω) (ev : Event ω) : List Errand := t.errands.eraseP ev.ends

/-- Whether the event is the call of one who has to wait for the flight. -/
def queues (t : Traffic ω) : Event ω → Bool
  | .call .flushNow => (t.course.engine.flushNow.2 matches .ok true)
  | _ => false

def after (acting : Engine.Acting ω) (t : Traffic ω) : Move ω → Traffic ω
  | .giveUp caller => { t with waiting := t.waiting.erase caller }
  | .event ev =>
    let g := t.course.engine.after acting ev
    let callers := if t.queues ev then t.callers + 1 else t.callers
    { course := t.course.after acting ev
      errands := t.left ev ++ g.errands
      -- the end of a flight wakes all who wait for it
      waiting :=
        if g.flying then (if t.queues ev then t.waiting ++ [callers] else t.waiting) else []
      callers }

/-- The traffic that follows with listeners of a kind. -/
inductive Leads (listeners : Engine.Acting ω → Prop) (t : Traffic ω) : Traffic ω → Prop where
  | refl : Leads listeners t t
  | step {t' : Traffic ω} {acting : Engine.Acting ω} {m : Move ω} :
      Leads listeners t t' → listeners acting → t'.Ready m →
      Leads listeners t (t'.after acting m)

/-- The traffic of an engine from its start on. -/
def Reachable (listeners : Engine.Acting ω → Prop) (t : Traffic ω) : Prop :=
  ∃ metas rules quietPeriod shownFor,
    (start metas rules quietPeriod shownFor).Leads listeners t

/-- What is under way is what the engine takes its flight to wait for. -/
structure Orderly (t : Traffic ω) : Prop where
  said : t.course.engine.errands = []
  errands : t.errands = t.course.engine.flight.errand?.toList

/-- Then only what the engine expects can happen. -/
theorem Orderly.ready {t : Traffic ω} (h : t.Orderly) {ev : Event ω}
    (hready : t.Ready (.event ev)) : t.course.Ready ev := by
  unfold Ready at hready
  rw [h.errands] at hready
  cases ev with
  | call | wait => exact hready
  | turn turn =>
    cases turn with
    | quietOver | shownOver | loaded => exact hready
    | takeOff | updated | reloaded =>
      cases hflight : t.course.engine.flight <;>
        simp_all [Flight.errand?, Event.ends, Event.serves, Course.Ready]

theorem Orderly.left {t : Traffic ω} (h : t.Orderly) (hlisten : Listening admitted acting)
    {ev : Event ω} (hready : t.Ready (.event ev)) :
    t.left ev ++ (t.course.engine.after acting ev).errands =
      (t.course.engine.after acting ev).flight.errand?.toList := by
  have hforwards := Engine.after_forwards hlisten (h.ready hready)
  unfold Traffic.left
  rw [h.errands]
  exact hforwards.errands h.said

theorem Orderly.after {t : Traffic ω} (h : t.Orderly) (hlisten : Listening admitted acting)
    {m : Move ω} (hready : t.Ready m) : (t.after acting m).Orderly := by
  cases m with
  | giveUp caller => exact ⟨h.said, h.errands⟩
  | event ev => exact ⟨rfl, h.left hlisten hready⟩

theorem Reachable.orderly {t : Traffic ω} (h : t.Reachable (Listening admitted)) : t.Orderly := by
  obtain ⟨metas, rules, quietPeriod, shownFor, hleads⟩ := h
  induction hleads with
  | refl => exact ⟨rfl, rfl⟩
  | step _ hlisten hready ih => exact ih.after hlisten hready

theorem Orderly.updates_of_reload {t : Traffic ω} (h : t.Orderly) (hreload : .reload ∈ t.errands) :
    t.updates = [] := by
  unfold updates
  rw [h.errands] at hreload ⊢
  cases hflight : t.course.engine.flight <;> simp_all [Flight.errand?, Errand.batch?]

/-- A batch is sent when nothing else is under way. -/
theorem Orderly.sends {t : Traffic ω} (h : t.Orderly) (hlisten : Listening admitted acting)
    {ev : Event ω} (hready : t.Ready (.event ev)) {batch : Batch}
    (hbatch : batch ∈ (t.course.engine.after acting ev).sends) :
    t.left ev = [] ∧ (t.course.engine.after acting ev).sends = [batch] := by
  have hleft := h.left hlisten hready
  rw [Engine.sends_eq] at hbatch ⊢
  cases herrand : (t.course.engine.after acting ev).flight.errand? with
  | none =>
    rw [herrand] at hleft
    rw [(List.append_eq_nil_iff.1 hleft).2] at hbatch
    cases hbatch
  | some errand =>
    rw [herrand] at hleft
    rcases List.append_eq_singleton_iff.1 hleft with ⟨hnone, hone⟩ | ⟨-, hnone⟩
    · rw [hone] at hbatch ⊢
      cases errand with
      | update batch' =>
        cases List.mem_singleton.1 hbatch
        exact ⟨hnone, rfl⟩
      | takeOff | reload => cases hbatch
    · rw [hnone] at hbatch
      cases hbatch

/-- The store has at most one batch to answer at any time, and none while the catalog is loaded
after a save. When it is called with a batch, it is called once, and there is nothing else that a
flight waits for: all batches that it was called with before are answered, and so are the loads that
followed them. It makes no difference how many callers wait for a save, and which of them give
up. -/
theorem single_flight {t : Traffic ω} (h : t.Reachable (Listening fun _ _ => True)) :
    t.updates.length ≤ 1 ∧ (.reload ∈ t.errands → t.updates = []) ∧
      ∀ acting, Listening (fun _ _ => True) acting → ∀ ev, t.Ready (.event ev) →
        ∀ batch ∈ (t.course.engine.after acting ev).sends,
          t.left ev = [] ∧ (t.course.engine.after acting ev).sends = [batch] := by
  have horderly := h.orderly
  refine ⟨?_, horderly.updates_of_reload, fun _ hlisten _ hready _ => horderly.sends hlisten hready⟩
  calc t.updates.length
    _ ≤ t.errands.length := List.length_filterMap_le _ _
    _ ≤ 1 := by
      rw [horderly.errands]
      cases t.course.engine.flight.errand? <;> simp

/-! ## Runs -/

/-- The traffic after some moves, while listeners do the same all the time. -/
def run (acting : Engine.Acting ω) (t : Traffic ω) (ms : List (Move ω)) : Traffic ω :=
  ms.foldl (after acting) t

/-- Each of the moves can happen when its turn comes. -/
def Runs (acting : Engine.Acting ω) (t : Traffic ω) : List (Move ω) → Prop
  | [] => True
  | m :: ms => t.Ready m ∧ (t.after acting m).Runs acting ms

instance (acting : Engine.Acting ω) (t : Traffic ω) :
    (ms : List (Move ω)) → Decidable (t.Runs acting ms)
  | [] => isTrue trivial
  | m :: ms =>
    have := instDecidableRuns acting (t.after acting m) ms
    inferInstanceAs (Decidable (_ ∧ _))

theorem Leads.trans {listeners : Engine.Acting ω → Prop} {t t' t'' : Traffic ω}
    (h : t.Leads listeners t') (h' : t'.Leads listeners t'') : t.Leads listeners t'' := by
  induction h' with
  | refl => exact h
  | step _ hlisten hready ih => exact ih.step hlisten hready

theorem leads_run {listeners : Engine.Acting ω → Prop} {t : Traffic ω} {ms : List (Move ω)}
    (hlisten : listeners acting) (hruns : t.Runs acting ms) :
    t.Leads listeners (t.run acting ms) := by
  -- the first move leads to the traffic from which the others are a run
  induction ms generalizing t with
  | nil => exact .refl
  | cons m ms ih => exact (Leads.refl.step hlisten hruns.1).trans (ih hruns.2)

/-- A save that is called for during a save begins when the store has answered, and not before,
even if one who waits for it has given up. -/
theorem second_save_waits :
    let t : Traffic Unit := (start [] [] 1 1).run .silent
      [.event (.call (.change "key" "one")), .event (.call .flushNow), .event (.call .flushNow),
        .giveUp 2, .event (.turn .takeOff), .event (.call (.change "key" "two")),
        .event (.call .flushNow)]
    let answered : Event Unit := .turn (.updated (.error (.save "no answer" none none)))
    let second : Batch := ⟨[("key", "two")], [2]⟩
    t.waiting = [1, 3] ∧ t.updates = [⟨[("key", "one")], [1]⟩] ∧
      t.left answered = [] ∧ (t.course.engine.after .silent answered).sends = [second] := by
  intro t answered second
  have h : t.Reachable (Listening fun _ _ => True) :=
    ⟨[], [], 1, 1, leads_run (.aloof aloof_silent) (by decide)⟩
  obtain ⟨-, -, hsends⟩ := single_flight h
  obtain ⟨hleft, hsecond⟩ :=
    hsends .silent (.aloof aloof_silent) answered (by decide) second (by decide)
  exact ⟨by decide, by decide, hleft, hsecond⟩

end Traffic

end DeferredSave
