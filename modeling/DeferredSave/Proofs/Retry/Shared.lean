import DeferredSave.Proofs.Retry.History
import DeferredSave.Proofs.Retry.Run
import Mathlib.Logic.Function.Basic
import Mathlib.Logic.Relation

/-!
# Calls that share a breaker

Any number of calls take turns, in any order. Each asks the breaker before an attempt and makes the
attempt in the same turn; while it waits for the outcome, or sleeps before the next attempt, the
others go on and change the breaker. No attempt is made while the breaker is open, and each call
reports at most one outcome to it (`Pool.cool_down_is_kept`).
-/

namespace DeferredSave

variable {ι α : Type}

/-! ## What a call does -/

/-- The outcome of an attempt as the breaker is told of it. -/
def Breaker.Use.ofOutcome : Except Failure α → Breaker.Use
  | .ok _ => .success
  | .error f => .failure f.kind

/-- A breaker that opens notes the time. -/
theorem Breaker.opens_now {b : Breaker} {now : Rat} {u : Use} (hc : b.circuit ≠ .opened)
    (hc' : (b.after now u).circuit = .opened) : (b.after now u).lastFailure = some now := by
  cases hcirc : b.circuit with
  | opened => exact absurd hcirc hc
  | closed =>
    rw [after_of_closed hcirc] at hc' ⊢
    cases u with
    | failure kind =>
      simp only at hc' ⊢
      split at hc'
      · next hcounts => rw [if_pos hcounts]
      · exact absurd hc' hc
    | check | success => exact absurd hc' hc
    | reset => cases hc'
  | halfOpen =>
    rw [after_of_halfOpen hcirc] at hc' ⊢
    cases u with
    | failure kind =>
      simp only at hc' ⊢
      split at hc'
      · next hcounts => rw [if_pos hcounts]
      · exact absurd hc' hc
    | success =>
      simp only at hc'
      split at hc'
      · cases hc'
      · exact absurd hc' hc
    | check => exact absurd hc' hc
    | reset => cases hc'

inductive Deed (α : Type) where
  /-- The breaker let the call through, and it made an attempt. -/
  | attempted
  /-- The breaker refused the call. -/
  | refused (c : CircuitOpen)
  /-- An attempt had its outcome. -/
  | answered (outcome : Except Failure α)
  /-- The breaker was told of an outcome. -/
  | reported (outcome : Except Failure α)

namespace Deed

/-- How a deed uses the breaker. -/
def use? : Deed α → Option Breaker.Use
  | attempted | refused _ => some .check
  | reported outcome => some (.ofOutcome outcome)
  | answered _ => none

def report? : Deed α → Option (Except Failure α)
  | reported outcome => some outcome
  | _ => none

def answer? : Deed α → Option (Except Failure α)
  | answered outcome => some outcome
  | _ => none

section Simp

variable (outcome : Except Failure α) (c : CircuitOpen)

@[simp] theorem use?_attempted : (attempted : Deed α).use? = some .check := rfl
@[simp] theorem use?_refused : (refused c : Deed α).use? = some .check := rfl
@[simp] theorem use?_answered : (answered outcome).use? = none := rfl
@[simp] theorem use?_reported : (reported outcome).use? = some (.ofOutcome outcome) := rfl

end Simp

/-- The outcomes that the breaker was told of. -/
def reports (ds : List (Deed α)) : List (Except Failure α) := ds.filterMap report?

/-- The outcomes of attempts. -/
def answers (ds : List (Deed α)) : List (Except Failure α) := ds.filterMap answer?

theorem reports_append (ds ds' : List (Deed α)) : reports (ds ++ ds') = reports ds ++ reports ds' :=
  List.filterMap_append

theorem answers_append (ds ds' : List (Deed α)) : answers (ds ++ ds') = answers ds ++ answers ds' :=
  List.filterMap_append

end Deed

/-- How the delay after an attempt is reckoned, from the policy, the draw and the attempt. -/
abbrev Reckoning := RetryPolicy → Rat → Nat → Except Failure Rat

namespace RetryPolicy

/-- Delays as they are reckoned in a bounded range of numbers. -/
def reckoning : Reckoning := fun p u n => p.delay u n

/-- Delays in exact arithmetic. -/
def exactly : Reckoning := fun p u n => .ok (p.spread u (p.bareDelay n))

/-- Whether an outcome of an attempt is the last: a success, or a failure that is not worth another
attempt. -/
def IsLast (p : RetryPolicy) (n : Nat) : Except Failure α → Prop
  | .ok _ => True
  | .error f => ¬ p.Again n f

instance (p : RetryPolicy) (n : Nat) : (outcome : Except Failure α) → Decidable (p.IsLast n outcome)
  | .ok _ => isTrue trivial
  | .error f => inferInstanceAs (Decidable (¬ p.Again n f))

end RetryPolicy

namespace CallPhase

/-- What follows the outcome of an attempt, where delays are reckoned in some way. -/
def settleBy (delay : Reckoning) (p : RetryPolicy) (u : Rat) (n : Nat)
    (outcome : Except Failure α) (breaker? : Option Breaker) (now : Rat) :
    Option Breaker × CallPhase α :=
  if p.IsLast n outcome then (breaker?.map (·.after now (.ofOutcome outcome)), ended outcome)
  else
    match delay p u n with
    | .ok d => (breaker?, asleep (n + 1) (if 0 < d then now + d else now))
    | .error f => (breaker?, ended (.error f))

theorem settle_eq_settleBy (p : RetryPolicy) (u : Rat) (n : Nat) (outcome : Except Failure α)
    (breaker? : Option Breaker) (now : Rat) :
    settle p u n outcome breaker? now =
      settleBy RetryPolicy.reckoning p u n outcome breaker? now := by
  unfold settleBy
  cases outcome with
  | ok a => rfl
  | error f =>
    by_cases ha : p.Again n f
    · have hnot : ¬ p.IsLast n (.error f : Except Failure α) := not_not_intro ha
      rw [settle_again _ _ _ _ _ ha, if_neg hnot]
      unfold RetryPolicy.reckoning RetryPolicy.delay
      cases p.outOfRange? n <;> rfl
    · have hlast : p.IsLast n (.error f : Except Failure α) := ha
      rw [settle_last _ _ _ _ _ ha, if_pos hlast]
      rfl

/-- As long as they are in range, delays are exact. -/
theorem settle_eq_exactly {p : RetryPolicy} {n : Nat} (h : p.outOfRange? n = none) (u : Rat)
    (outcome : Except Failure α) (breaker? : Option Breaker) (now : Rat) :
    settle p u n outcome breaker? now =
      settleBy RetryPolicy.exactly p u n outcome breaker? now := by
  have hexact : RetryPolicy.reckoning p u n = RetryPolicy.exactly p u n := by
    simp only [RetryPolicy.reckoning, RetryPolicy.delay, h]
    rfl
  rw [settle_eq_settleBy, settleBy, settleBy, hexact]

/-- A call tells the breaker of the last outcome and ends with it; otherwise it sleeps before the
next attempt, or cannot tell how long and ends with that. -/
theorem settleBy_cases {delay : Reckoning} {p : RetryPolicy} {u : Rat} {n : Nat}
    {outcome : Except Failure α} {b b' : Breaker} {now : Rat} {phase : CallPhase α}
    (h : settleBy delay p u n outcome (some b) now = (some b', phase)) :
    (p.IsLast n outcome ∧ b' = b.after now (.ofOutcome outcome) ∧ phase = ended outcome) ∨
      (¬ p.IsLast n outcome ∧ b' = b ∧
        ((∃ wake, phase = asleep (n + 1) wake) ∨
          ∃ f, delay p u n = .error f ∧ phase = ended (.error f))) := by
  unfold settleBy at h
  split at h
  · next hlast =>
    obtain ⟨hb, rfl⟩ := Prod.mk.inj h
    exact .inl ⟨hlast, (Option.some.inj hb).symm, rfl⟩
  · next hlast =>
    split at h
    · obtain ⟨hb, rfl⟩ := Prod.mk.inj h
      exact .inr ⟨hlast, (Option.some.inj hb).symm, .inl ⟨_, rfl⟩⟩
    · next f hf =>
      obtain ⟨hb, rfl⟩ := Prod.mk.inj h
      exact .inr ⟨hlast, (Option.some.inj hb).symm, .inr ⟨f, hf, rfl⟩⟩

/-- A call that asks the breaker makes its attempt, with the breaker not open, or is refused by a
breaker that stays as it is. -/
theorem attempt_cases (n : Nat) (b : Breaker) (now : Rat) :
    (attempt (α := α) n (some b) now = (some (b.after now .check), trying n) ∧
        (b.after now .check).circuit ≠ .opened) ∨
      (b.circuit = .opened ∧ 0 < b.untilProbe now ∧
        attempt (α := α) n (some b) now =
          (some b, ended (.error (.circuitOpen ⟨b.service, b.untilProbe now⟩)))) := by
  unfold attempt Breaker.after
  by_cases hc : b.circuit = .opened
  · simp only [Breaker.check_of_opened hc]
    by_cases hleft : 0 < b.untilProbe now
    · exact .inr ⟨hc, hleft, by simp [hleft]⟩
    · exact .inl (by simp [hleft])
  · exact .inl (by simp [Breaker.check_of_ne hc, hc])

/-- What a call has done when it has asked the breaker. -/
def asked : CallPhase α → Deed α
  | ended (.error (.circuitOpen c)) => .refused c
  | _ => .attempted

end CallPhase

/-! ## The pool -/

/-- Something that one of the calls did. -/
structure Entry (ι α : Type) where
  caller : ι
  time : Rat
  deed : Deed α

/-- Calls that share a breaker. -/
structure Pool (ι α : Type) where
  breaker : Breaker
  now : Rat
  phase : ι → CallPhase α
  /-- All that was done, the oldest first. -/
  log : List (Entry ι α) := []

namespace Pool

/-- Calls that have not begun, and a breaker in any state. -/
def start (b : Breaker) (now : Rat) : Pool ι α := { breaker := b, now, phase := fun _ => .ready 0 }

/-- The uses of the breaker. -/
def history (s : Pool ι α) : Breaker.History :=
  s.log.filterMap fun e => e.deed.use?.map (e.time, ·)

/-- The turn of a call for its `n`-th attempt has come: it begins, or it has slept long enough. -/
def Due (s : Pool ι α) (i : ι) (n : Nat) : Prop :=
  s.phase i = .ready n ∨ ∃ wake, s.phase i = .asleep n wake ∧ wake ≤ s.now

variable [DecidableEq ι]

/-- What a call has done. -/
def deedsOf (s : Pool ι α) (i : ι) : List (Deed α) :=
  (s.log.filter (·.caller = i)).map (·.deed)

/-- The pool when a call has moved on. -/
def moved (s : Pool ι α) (i : ι) (b : Breaker) (phase : CallPhase α) (ds : List (Deed α)) :
    Pool ι α :=
  { s with
    breaker := b
    phase := Function.update s.phase i phase
    log := s.log ++ ds.map fun d => ⟨i, s.now, d⟩ }

/-- One turn of one of the calls, or time that goes by. -/
inductive Step (delay : Reckoning) (policies : ι → RetryPolicy) (s : Pool ι α) :
    Pool ι α → Prop where
  | wait {seconds : Rat} :
      0 ≤ seconds → Step delay policies s { s with now := s.now + seconds }
  /-- A call asks the breaker, and makes an attempt if it may. -/
  | ask {i : ι} {n : Nat} {b : Breaker} {phase : CallPhase α} :
      s.Due i n → CallPhase.attempt n (some s.breaker) s.now = (some b, phase) →
      Step delay policies s (s.moved i b phase [phase.asked])
  /-- An attempt has its outcome, and the breaker is told of it if it is the last. -/
  | settle {i : ι} {n : Nat} {u : Rat} {outcome : Except Failure α} {b : Breaker}
      {phase : CallPhase α} :
      s.phase i = .trying n →
      CallPhase.settleBy delay (policies i) u n outcome (some s.breaker) s.now = (some b, phase) →
      Step delay policies s
        (s.moved i b phase
          (.answered outcome ::
            if (policies i).IsLast n outcome then [.reported outcome] else []))

/-- The pools that follow from a pool. -/
abbrev Leads (delay : Reckoning) (policies : ι → RetryPolicy) : Pool ι α → Pool ι α → Prop :=
  Relation.ReflTransGen (Step delay policies)

variable {delay : Reckoning} {policies : ι → RetryPolicy} {s s' : Pool ι α} {i j : ι}

/-! ### One turn -/

section Moved

variable (s i) (b : Breaker) (phase : CallPhase α) (ds : List (Deed α))

theorem deedsOf_moved : (s.moved i b phase ds).deedsOf i = s.deedsOf i ++ ds := by
  simp [deedsOf, moved, List.filter_map, Function.comp_def]

theorem deedsOf_moved_of_ne (h : j ≠ i) : (s.moved i b phase ds).deedsOf j = s.deedsOf j := by
  have hne : i ≠ j := fun h' => h h'.symm
  simp [deedsOf, moved, List.filter_map, Function.comp_def, hne]

theorem phase_moved : (s.moved i b phase ds).phase i = phase := Function.update_self ..

theorem phase_moved_of_ne (h : j ≠ i) : (s.moved i b phase ds).phase j = s.phase j :=
  Function.update_of_ne h ..

theorem history_moved :
    (s.moved i b phase ds).history = s.history ++ (ds.filterMap Deed.use?).map (s.now, ·) := by
  simp only [history, moved, List.filterMap_append, List.filterMap_map, List.map_filterMap]
  rfl

end Moved

/-- What a turn does to the breaker is what it notes down as its uses. -/
theorem Step.breaker {t : Breaker} (h : Step delay policies s s')
    (hs : s.breaker = t.run s.history) : s'.breaker = t.run s'.history := by
  cases h with
  | wait _ => exact hs
  | @ask i n b phase _ hask =>
    rw [history_moved]
    rcases CallPhase.attempt_cases (α := α) n s.breaker s.now with
      ⟨heq, -⟩ | ⟨hopen, hleft, heq⟩
    · obtain ⟨hb, rfl⟩ := Prod.mk.inj (hask.symm.trans heq)
      simp [moved, Option.some.inj hb, CallPhase.asked, hs]
    · obtain ⟨hb, rfl⟩ := Prod.mk.inj (hask.symm.trans heq)
      -- a refusal is a use too, but it leaves the breaker as it is
      have hsame : s.breaker.after s.now .check = s.breaker := by
        rw [Breaker.after_of_opened hopen]
        exact if_pos hleft
      simp [moved, Option.some.inj hb, CallPhase.asked, ← hs, hsame]
  | @settle i n u outcome b phase _ hsettle =>
    rw [history_moved]
    rcases CallPhase.settleBy_cases hsettle with ⟨hlast, rfl, -⟩ | ⟨hlast, rfl, -⟩
    · simp [moved, hlast, hs, List.filterMap_cons]
    · simp [moved, hlast, hs, List.filterMap_cons]

/-- The log grows by what is done now, and after an attempt the breaker is not open. -/
theorem Step.log (h : Step delay policies s s') :
    ∃ es, s'.log = s.log ++ es ∧
      ∀ e ∈ es, e.time = s.now ∧ (e.deed = .attempted → s'.breaker.circuit ≠ .opened) := by
  cases h with
  | wait => exact ⟨[], by simp, by simp⟩
  | @ask i n b phase _ hask =>
    refine ⟨_, rfl, ?_⟩
    rcases CallPhase.attempt_cases (α := α) n s.breaker s.now with ⟨heq, hc⟩ | ⟨-, -, heq⟩
    · obtain ⟨hb, -⟩ := Prod.mk.inj (hask.symm.trans heq)
      rw [← Option.some.inj hb] at hc
      simpa [moved] using fun _ => hc
    · obtain ⟨-, rfl⟩ := Prod.mk.inj (hask.symm.trans heq)
      simp [CallPhase.asked]
  | @settle i n u outcome b phase =>
    refine ⟨_, rfl, ?_⟩
    split <;> simp

/-- Time does not go back. -/
theorem Step.now_le (h : Step delay policies s s') : s.now ≤ s'.now := by
  cases h with
  | wait hs => exact le_add_of_nonneg_right hs
  | ask | settle => exact Rat.le_refl

/-- A call that has ended does nothing any more. -/
theorem Step.ended (h : Step delay policies s s') {result : Except Failure α}
    (hend : s.phase i = .ended result) :
    s'.phase i = .ended result ∧ s'.deedsOf i = s.deedsOf i := by
  -- the turn of another call
  have hmoved {j : ι} (hne : i ≠ j) (b : Breaker) (phase : CallPhase α) (ds : List (Deed α)) :
      (s.moved j b phase ds).phase i = .ended result ∧
        (s.moved j b phase ds).deedsOf i = s.deedsOf i :=
    ⟨(phase_moved_of_ne s j b phase ds hne).trans hend, deedsOf_moved_of_ne s j b phase ds hne⟩
  cases h with
  | wait _ => exact ⟨hend, rfl⟩
  | @ask j n b phase hdue _ =>
    refine hmoved ?_ b phase _
    rintro rfl
    rcases hdue with hready | ⟨wake, hasleep, -⟩
    · cases hend.symm.trans hready
    · cases hend.symm.trans hasleep
  | @settle j n u outcome b phase htrying _ =>
    refine hmoved ?_ b phase _
    rintro rfl
    cases hend.symm.trans htrying

theorem Leads.ended (h : Leads delay policies s s') {result : Except Failure α}
    (hend : s.phase i = .ended result) :
    s'.phase i = .ended result ∧ s'.deedsOf i = s.deedsOf i := by
  induction h with
  | refl => exact ⟨hend, rfl⟩
  | tail _ hstep ih =>
    obtain ⟨hphase, hdeeds⟩ := hstep.ended ih.1
    exact ⟨hphase, hdeeds.trans ih.2⟩

/-! ## The cool-down -/

/-- The breaker is open since a time. -/
def Shut (s : Pool ι α) (t : Rat) : Prop :=
  s.breaker.circuit = .opened ∧ s.breaker.lastFailure = some t

omit [DecidableEq ι] in
theorem Shut.untilProbe {t : Rat} (h : s.Shut t) :
    s.breaker.untilProbe s.now = t + s.breaker.policy.timeout - s.now := by
  simp only [Breaker.untilProbe, h.2, Option.getD_some]
  grind

/-- A breaker that opens notes the time. -/
theorem Step.opens (h : Step delay policies s s') (hc : s.breaker.circuit ≠ .opened)
    (hc' : s'.breaker.circuit = .opened) : s'.Shut s.now := by
  cases h with
  | wait => exact absurd hc' hc
  | @ask i n b phase _ hask =>
    rcases CallPhase.attempt_cases (α := α) n s.breaker s.now with ⟨heq, hnot⟩ | ⟨hopen, -, -⟩
    · obtain ⟨hb, -⟩ := Prod.mk.inj (hask.symm.trans heq)
      rw [← Option.some.inj hb] at hnot
      exact absurd hc' hnot
    · exact absurd hopen hc
  | @settle i n u outcome b phase _ hsettle =>
    rcases CallPhase.settleBy_cases hsettle with ⟨-, rfl, -⟩ | ⟨-, rfl, -⟩
    · exact ⟨hc', Breaker.opens_now hc hc'⟩
    · exact absurd hc' hc

/-- While the cool-down lasts, no turn changes the breaker. -/
theorem Step.shut {t : Rat} (h : Step delay policies s s') (hs : s.Shut t)
    (hnow : s.now < t + s.breaker.policy.timeout) : s'.breaker = s.breaker := by
  cases h with
  | wait => rfl
  | @ask i n b phase _ hask =>
    have hleft : 0 < s.breaker.untilProbe s.now := by
      rw [hs.untilProbe]
      grind
    rw [CallPhase.attempt, Breaker.check_of_opened hs.1, if_pos hleft] at hask
    exact (Option.some.inj (Prod.mk.inj hask).1).symm
  | @settle i n u outcome b phase _ hsettle =>
    -- an attempt from before may still end, but an open breaker takes no outcome
    rcases CallPhase.settleBy_cases hsettle with ⟨-, rfl, -⟩ | ⟨-, rfl, -⟩
    · change s.breaker.after s.now _ = s.breaker
      rw [Breaker.after_of_opened hs.1]
      cases outcome <;> rfl
    · rfl

/-- Until the cool-down is over the breaker stays as it is, and no attempt is made. -/
theorem Leads.shut {t : Rat} (h : Leads delay policies s s') (hs : s.Shut t) :
    (s'.now < t + s.breaker.policy.timeout → s'.breaker = s.breaker) ∧
      ∃ later, s'.log = s.log ++ later ∧
        ∀ e ∈ later, e.deed = .attempted → t + s.breaker.policy.timeout ≤ e.time := by
  induction h with
  | refl => exact ⟨fun _ => rfl, [], by simp, by simp⟩
  | @tail s₁ s₂ _ hstep ih =>
    obtain ⟨hkept, later, hlater, hlate⟩ := ih
    obtain ⟨es, hes, hnew⟩ := hstep.log
    have hsame (hnow : s₁.now < t + s.breaker.policy.timeout) : s₂.breaker = s.breaker := by
      have hb : s₁.breaker = s.breaker := hkept hnow
      have hshut : s₁.Shut t := by rw [Shut, hb]; exact hs
      exact (hstep.shut hshut (by rw [hb]; exact hnow)).trans hb
    refine ⟨fun hnow => hsame (lt_of_le_of_lt hstep.now_le hnow), later ++ es, ?_, ?_⟩
    · rw [hes, hlater, List.append_assoc]
    · intro e he hattempted
      rcases List.mem_append.1 he with he | he
      · exact hlate e he hattempted
      · obtain ⟨htime, hopen⟩ := hnew e he
        rw [htime]
        -- before the end of the cool-down the breaker is still open, and an attempt says otherwise
        refine Rat.not_lt.1 fun hnow => hopen hattempted ?_
        rw [hsame hnow]
        exact hs.1

/-- The pool when a call has been refused. -/
def refusing (s : Pool ι α) (i : ι) (c : CircuitOpen) : Pool ι α :=
  s.moved i s.breaker (.ended (.error (.circuitOpen c))) [.refused c]

/-- While the cool-down lasts, all that a call can do when its turn has come is to be refused. -/
theorem Shut.refuses {t : Rat} {n : Nat} (hs : s.Shut t)
    (hnow : s.now < t + s.breaker.policy.timeout) (hdue : s.Due i n) :
    let c : CircuitOpen := ⟨s.breaker.service, t + s.breaker.policy.timeout - s.now⟩
    Step delay policies s (s.refusing i c) ∧
      ∀ s', Step delay policies s s' → s'.phase i ≠ s.phase i → s' = s.refusing i c := by
  intro c
  have hleft : 0 < t + s.breaker.policy.timeout - s.now := by grind
  -- the answer of the breaker does not depend on the number of the attempt
  have hask (m : Nat) : CallPhase.attempt (α := α) m (some s.breaker) s.now =
      (some s.breaker, .ended (.error (.circuitOpen c))) := by
    simp only [CallPhase.attempt, Breaker.check_of_opened hs.1, hs.untilProbe, if_pos hleft, c]
  refine ⟨.ask hdue (hask n), fun s' hstep hmoves => ?_⟩
  cases hstep with
  | wait => exact absurd rfl hmoves
  | @ask j m b phase _ h =>
    by_cases hj : i = j
    · subst hj
      obtain ⟨hb, rfl⟩ := Prod.mk.inj (h.symm.trans (hask m))
      rw [Option.some.inj hb]
      rfl
    · exact absurd (phase_moved_of_ne s j b phase _ hj) hmoves
  | @settle j m u outcome b phase htrying h =>
    by_cases hj : i = j
    · subst hj
      rcases hdue with hready | ⟨wake, hasleep, -⟩
      · cases htrying.symm.trans hready
      · cases htrying.symm.trans hasleep
    · exact absurd (phase_moved_of_ne s j b phase _ hj) hmoves

/-! ## What a call tells the breaker -/

/-- How a call can have come to its end. -/
inductive Ends (delay : Reckoning) (p : RetryPolicy) (ds : List (Deed α)) :
    Except Failure α → Prop where
  /-- With its last outcome, which is the one that it has told the breaker of. -/
  | told {result : Except Failure α} :
      Deed.reports ds = [result] → (Deed.answers ds).getLast? = some result →
      Ends delay p ds result
  /-- The breaker refused it. -/
  | refused {c : CircuitOpen} :
      Deed.reports ds = [] → ds.getLast? = some (.refused c) →
      Ends delay p ds (.error (.circuitOpen c))
  /-- The delay before its next attempt could not be reckoned. -/
  | unreckoned {u : Rat} {n : Nat} {f : Failure} :
      Deed.reports ds = [] → delay p u n = .error f → Ends delay p ds (.error f)

/-- A call has told the breaker of nothing before its end. -/
def Accounted (delay : Reckoning) (p : RetryPolicy) (ds : List (Deed α)) : CallPhase α → Prop
  | .ended result => Ends delay p ds result
  | _ => Deed.reports ds = []

theorem Step.accounted (h : Step delay policies s s')
    (hs : ∀ i, Accounted delay (policies i) (s.deedsOf i) (s.phase i)) (i : ι) :
    Accounted delay (policies i) (s'.deedsOf i) (s'.phase i) := by
  -- only the account of the call whose turn it is changes
  have hmoved {j : ι} {b : Breaker} {phase : CallPhase α} {ds : List (Deed α)}
      (hj : Accounted delay (policies j) (s.deedsOf j ++ ds) phase) :
      Accounted delay (policies i) ((s.moved j b phase ds).deedsOf i)
        ((s.moved j b phase ds).phase i) := by
    by_cases hij : i = j
    · subst hij
      rw [deedsOf_moved, phase_moved]
      exact hj
    · rw [deedsOf_moved_of_ne s j b phase ds hij, phase_moved_of_ne s j b phase ds hij]
      exact hs i
  cases h with
  | wait => exact hs i
  | @ask j n b phase hdue hask =>
    refine hmoved ?_
    have hnone : Deed.reports (s.deedsOf j) = [] := by
      have hj := hs j
      rcases hdue with hready | ⟨wake, hasleep, -⟩
      · rwa [hready] at hj
      · rwa [hasleep] at hj
    rcases CallPhase.attempt_cases (α := α) n s.breaker s.now with ⟨heq, -⟩ | ⟨-, -, heq⟩
    · obtain ⟨-, rfl⟩ := Prod.mk.inj (hask.symm.trans heq)
      change Deed.reports (s.deedsOf j ++ [.attempted]) = []
      rw [Deed.reports_append, hnone]
      rfl
    · obtain ⟨-, rfl⟩ := Prod.mk.inj (hask.symm.trans heq)
      refine .refused ?_ (by simp [CallPhase.asked])
      rw [Deed.reports_append, hnone]
      rfl
  | @settle j n u outcome b phase htrying hsettle =>
    refine hmoved ?_
    have hnone : Deed.reports (s.deedsOf j) = [] := by
      have hj := hs j
      rwa [htrying] at hj
    rcases CallPhase.settleBy_cases hsettle with
      ⟨hlast, -, rfl⟩ | ⟨hlast, -, ⟨wake, rfl⟩ | ⟨f, hf, rfl⟩⟩
    · rw [if_pos hlast]
      refine .told ?_ ?_
      · rw [Deed.reports_append, hnone]
        rfl
      · rw [Deed.answers_append]
        exact List.getLast?_concat
    · rw [if_neg hlast]
      change Deed.reports (s.deedsOf j ++ [.answered outcome]) = []
      rw [Deed.reports_append, hnone]
      rfl
    · rw [if_neg hlast]
      refine .unreckoned ?_ hf
      rw [Deed.reports_append, hnone]
      rfl

/-- In exact arithmetic there is a delay after every attempt. -/
theorem Ends.exactly {p : RetryPolicy} {ds : List (Deed α)} {result : Except Failure α}
    (h : Ends RetryPolicy.exactly p ds result) :
    Deed.reports ds = [result] ∧ (Deed.answers ds).getLast? = some result ∨
      Deed.reports ds = [] ∧
        ∃ c, result = .error (.circuitOpen c) ∧ ds.getLast? = some (.refused c) := by
  cases h with
  | told hreports hlast => exact .inl ⟨hreports, hlast⟩
  | refused hreports hlast => exact .inr ⟨hreports, _, rfl, hlast⟩
  | unreckoned _ h => cases h

theorem Leads.accounted {b : Breaker} {now : Rat}
    (h : Leads delay policies (start b now : Pool ι α) s) (i : ι) :
    Accounted delay (policies i) (s.deedsOf i) (s.phase i) := by
  induction h generalizing i with
  | refl => rfl
  | tail _ hstep ih => exact hstep.accounted ih i

theorem Leads.breaker {b : Breaker} {now : Rat}
    (h : Leads delay policies (start b now : Pool ι α) s) : s.breaker = b.run s.history := by
  induction h with
  | refl => rfl
  | tail _ hstep ih => exact hstep.breaker ih

/-! ## The whole -/

/-- Calls keep to the breaker that they share: no matter how they take turns from here, none makes
an attempt while it is open, and none tells it of more than one outcome. -/
structure KeepsCoolDown (policies : ι → RetryPolicy) (b : Breaker) (s : Pool ι α) : Prop where
  /-- The breaker is what its uses have made of it. -/
  breaker : s.breaker = b.run s.history
  /-- A call that makes an attempt finds the breaker not open. -/
  attempts : ∀ s', Step RetryPolicy.exactly policies s s' →
    ∃ es, s'.log = s.log ++ es ∧
      ∀ e ∈ es, e.deed = .attempted → e.time = s.now ∧ s'.breaker.circuit ≠ .opened
  /-- The breaker opens in a turn, at a time that it notes. -/
  opens : ∀ s', Step RetryPolicy.exactly policies s s' →
    s.breaker.circuit ≠ .opened → s'.breaker.circuit = .opened → s'.Shut s.now
  /-- Once it is open there is no attempt before its cool-down is over. -/
  coolDown : ∀ s' t, s.Shut t → Leads RetryPolicy.exactly policies s s' →
    ∃ later, s'.log = s.log ++ later ∧
      ∀ e ∈ later, e.deed = .attempted → t + b.policy.timeout ≤ e.time
  /-- A call whose turn comes before that, be it awake or just woken, can only be refused. -/
  refuses : ∀ t i n, s.Shut t → s.now < t + b.policy.timeout → s.Due i n →
    let c : CircuitOpen := ⟨b.service, t + b.policy.timeout - s.now⟩
    Step RetryPolicy.exactly policies s (s.refusing i c) ∧
      ∀ s', Step RetryPolicy.exactly policies s s' → s'.phase i ≠ s.phase i → s' = s.refusing i c
  /-- A call that has ended does nothing any more. -/
  ends : ∀ i result, s.phase i = .ended result →
    ∀ s', Leads RetryPolicy.exactly policies s s' →
      s'.phase i = .ended result ∧ s'.deedsOf i = s.deedsOf i
  /-- A call that has not ended has told the breaker of nothing. -/
  silent : ∀ i, (∀ result, s.phase i ≠ .ended result) → Deed.reports (s.deedsOf i) = []
  /-- A call that has ended has told the breaker of its last outcome and ended with it, unless the
  breaker refused it. -/
  reports : ∀ i result, s.phase i = .ended result →
    Deed.reports (s.deedsOf i) = [result] ∧ (Deed.answers (s.deedsOf i)).getLast? = some result ∨
      Deed.reports (s.deedsOf i) = [] ∧
        ∃ c, result = .error (.circuitOpen c) ∧ (s.deedsOf i).getLast? = some (.refused c)

/-- Any number of calls that share a breaker keep to it, in whatever state they found it. -/
theorem cool_down_is_kept {b : Breaker} {now : Rat}
    (h : Leads RetryPolicy.exactly policies (start b now) s) : s.KeepsCoolDown policies b := by
  have hbreaker : s.breaker = b.run s.history := Leads.breaker h
  have hservice : s.breaker.service = b.service := by rw [hbreaker, Breaker.service_run]
  have hpolicy : s.breaker.policy = b.policy := by rw [hbreaker, Breaker.policy_run]
  refine
    { breaker := hbreaker
      attempts := ?_
      opens := fun s' hstep hc hc' => hstep.opens hc hc'
      coolDown := ?_
      refuses := ?_
      ends := fun i result hend s' hleads => Leads.ended hleads hend
      silent := ?_
      reports := ?_ }
  · intro s' hstep
    obtain ⟨es, hes, hnew⟩ := hstep.log
    exact ⟨es, hes, fun e he hattempted => ⟨(hnew e he).1, (hnew e he).2 hattempted⟩⟩
  · intro s' t hshut hleads
    rw [← hpolicy]
    exact (Leads.shut hleads hshut).2
  · intro t i n hshut hnow hdue
    rw [← hpolicy] at hnow ⊢
    rw [← hservice]
    exact hshut.refuses hnow hdue
  · intro i hnot
    have hi := Leads.accounted h i
    cases hphase : s.phase i with
    | ended result => exact absurd hphase (hnot result)
    | ready | trying | asleep => rwa [hphase] at hi
  · intro i result hend
    have hi := Leads.accounted h i
    rw [hend] at hi
    exact Ends.exactly hi

section Example

/-- Worth another attempt. -/
def lost : Failure := .plain .connection none

/-- Not worth another attempt. -/
def fault : Failure := .plain .value none

/-- A breaker that opens at once. -/
def touchy : Breaker := .new "store" { failureThreshold := 1 }

/-- The first of two calls is asleep after an attempt. -/
def slept : Pool Bool Unit :=
  ((start touchy 0).moved true touchy (.trying 0) [.attempted]).moved true touchy
    (.asleep 1 (1 / 2)) [.answered (.error lost)]

/-- The second has failed for good, and a second has passed. -/
def caught : Pool Bool Unit :=
  { (slept.moved false touchy (.trying 0) [.attempted]).moved false (touchy.addFailure 0)
      (.ended (.error fault)) [.answered (.error fault), .reported (.error fault)] with
    now := 0 + 1 }

theorem leads_caught :
    Leads RetryPolicy.exactly (fun _ => {}) (start touchy 0) caught := by
  have hagain : ¬ RetryPolicy.IsLast {} 0 (.error lost : Except Failure Unit) := by decide +kernel
  have hlast : RetryPolicy.IsLast {} 0 (.error fault : Except Failure Unit) := by decide +kernel
  have hdelay : RetryPolicy.exactly {} (1 / 2) 0 = .ok (1 / 2) := by decide +kernel
  have hwake : (if 0 < (1 / 2 : Rat) then 0 + 1 / 2 else 0) = (1 / 2 : Rat) := by decide +kernel
  have hslept : CallPhase.settleBy RetryPolicy.exactly {} (1 / 2) 0
      (.error lost : Except Failure Unit) (some touchy) 0 = (some touchy, .asleep 1 (1 / 2)) := by
    rw [CallPhase.settleBy, if_neg hagain, hdelay]
    simp only [hwake]
  have hended : CallPhase.settleBy RetryPolicy.exactly {} 0 0
      (.error fault : Except Failure Unit) (some touchy) 0 =
        (some (touchy.addFailure 0), .ended (.error fault)) := by
    rw [CallPhase.settleBy, if_pos hlast]
    rfl
  have hfirst : Leads RetryPolicy.exactly (fun _ => {}) (start touchy 0) slept := by
    have hstep : Step RetryPolicy.exactly (fun _ => {})
        ((start touchy 0).moved true touchy (.trying 0) [.attempted]) _ :=
      .settle (i := true) rfl hslept
    rw [if_neg hagain] at hstep
    exact .tail (.single (.ask (i := true) (.inl rfl) rfl)) hstep
  have hsecond : Step RetryPolicy.exactly (fun _ => {})
      (slept.moved false touchy (.trying 0) [.attempted]) _ :=
    .settle (i := false) rfl hended
  rw [if_pos hlast] at hsecond
  exact ((hfirst.tail (.ask (i := false) (.inl rfl) rfl)).tail hsecond).tail
    (.wait (by decide +kernel))

/-- The call that sleeps is refused when it wakes, and that is its end. -/
theorem sleeper_is_refused :
    Leads RetryPolicy.exactly (fun _ => {}) (start touchy 0) caught ∧
      caught.Shut 0 ∧ caught.Due true 1 ∧
      Step RetryPolicy.exactly (fun _ => {}) caught (caught.refusing true ⟨"store", 29⟩) ∧
      ∀ s', Step RetryPolicy.exactly (fun _ => {}) caught s' → s'.phase true ≠ caught.phase true →
        s' = caught.refusing true ⟨"store", 29⟩ := by
  have hshut : caught.Shut 0 := ⟨rfl, rfl⟩
  have hdue : caught.Due true 1 := .inr ⟨1 / 2, rfl, by decide +kernel⟩
  have hleft : (0 : Rat) + touchy.policy.timeout - caught.now = 29 := by decide +kernel
  have hrefused := (cool_down_is_kept leads_caught).refuses 0 true 1 hshut (by decide +kernel) hdue
  rw [hleft] at hrefused
  exact ⟨leads_caught, hshut, hdue, hrefused⟩

end Example

end Pool

end DeferredSave
