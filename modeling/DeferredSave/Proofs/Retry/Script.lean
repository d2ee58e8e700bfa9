import DeferredSave.Proofs.Retry.Range
import DeferredSave.Proofs.Retry.Shared
import Mathlib.Algebra.Order.Field.Rat
import Mathlib.Tactic.Linarith
import Mathlib.Algebra.BigOperators.Group.List.Basic

/-!
# A call over a script

What a call does when the outcomes of its attempts are given beforehand: how many attempts it makes
and when, what it ends with, and what it tells its breaker. All of this is as the policy says, as
long as the delays between the attempts are in range (`script_is_played_iff`).
-/

namespace DeferredSave

variable {α : Type} {p : RetryPolicy} {u : Draws} {outcomes : Nat → Except Failure α}
  {breaker? : Option Breaker} {now : Rat} {n : Nat}

/-- Makes attempts that have the given outcomes. The state counts the attempts so far. -/
def playScript (outcomes : Nat → Except Failure α) (_ : Rat) (made : Nat) :
    Nat × Except Failure α :=
  (made + 1, outcomes made)

namespace RetryPolicy

/-! ## The last attempt -/

/-- Whether no attempt follows an outcome, however many are left: it is a success, or a failure that
is not worth another attempt. -/
def decides (p : RetryPolicy) : Except Failure α → Bool
  | .ok _ => true
  | .error f => !p.retries f

/-- The last attempt of a call, counted from zero: the first whose outcome decides the call, but at
the latest the last one that the policy allows. -/
def lastAttempt (p : RetryPolicy) (outcomes : Nat → Except Failure α) : Nat :=
  (List.range p.maxRetries.toNat).findIdx fun n => p.decides (outcomes n)

theorem isLast_iff {outcome : Except Failure α} :
    p.IsLast n outcome ↔ p.decides outcome = true ∨ p.maxRetries ≤ n := by
  cases outcome with
  | ok a => exact iff_of_true trivial (.inl rfl)
  | error f =>
    rw [IsLast, Again, decides, not_and_or, Int.not_lt, Bool.not_eq_true, Bool.not_eq_true',
      or_comm]

theorem isLast_lastAttempt (p : RetryPolicy) (outcomes : Nat → Except Failure α) :
    p.IsLast (p.lastAttempt outcomes) (outcomes (p.lastAttempt outcomes)) := by
  rw [isLast_iff]
  unfold lastAttempt
  by_cases hlt : (List.range p.maxRetries.toNat).findIdx (fun n => p.decides (outcomes n)) <
      (List.range p.maxRetries.toNat).length
  · have hdecides := List.findIdx_getElem (w := hlt)
    rw [List.getElem_range] at hdecides
    exact .inl hdecides
  · -- no outcome decides, so the attempts are used up
    rw [List.length_range] at hlt
    exact .inr (by omega)

theorem lastAttempt_le (p : RetryPolicy) (outcomes : Nat → Except Failure α) :
    p.lastAttempt outcomes ≤ p.maxRetries.toNat :=
  List.findIdx_le_length.trans_eq List.length_range

theorem not_isLast_of_lt (h : n < p.lastAttempt outcomes) : ¬ p.IsLast n (outcomes n) := by
  have hlt : n < p.maxRetries.toNat := Nat.lt_of_lt_of_le h (p.lastAttempt_le outcomes)
  have hnot := List.not_of_lt_findIdx h
  rw [List.getElem_range] at hnot
  rw [isLast_iff, not_or, Bool.not_eq_true]
  exact ⟨hnot, by omega⟩

/-! ## Delays -/

/-- The delay after an attempt, counted from zero, before it is spread. -/
def capped (p : RetryPolicy) (n : Nat) : Rat := min (p.baseDelay * p.growth ^ n) p.maxDelay

/-- What a delay is multiplied with to spread it. -/
def factor (p : RetryPolicy) (u : Rat) : Rat := if p.jitter then 1 / 2 + u else 1

/-- How long a call sleeps after an attempt; a delay below zero is over at once. -/
def pause (p : RetryPolicy) (u : Draws) (n : Nat) : Rat := p.capped n * p.factor (u.after n)

/-- The time from the first attempt to the `n`-th after it. -/
def elapsed (p : RetryPolicy) (u : Draws) (n : Nat) : Rat :=
  ((List.range n).map fun i => max 0 (p.pause u i)).sum

theorem bareDelay_natCast (p : RetryPolicy) (n : Nat) : p.bareDelay n = p.capped n := by
  have hpow : Rat.zpow p.growth n = p.growth ^ n := rfl
  rw [bareDelay, capped, hpow, min_def]

theorem spread_eq (p : RetryPolicy) (u delay : Rat) : p.spread u delay = delay * p.factor u := by
  unfold spread factor
  split
  · rfl
  · rw [mul_one]

theorem arrival_eq (p : RetryPolicy) (u : Draws) (now : Rat) (n : Nat) :
    p.arrival u now n = now + p.elapsed u n := by
  induction n with
  | zero => exact (add_zero now).symm
  | succ n ih =>
    have hsum : p.elapsed u (n + 1) = p.elapsed u n + max 0 (p.pause u n) := by
      simp [elapsed, List.range_succ]
    have hwake (t : Rat) : p.wake (u.after n) n t = t + max 0 (p.pause u n) := by
      rw [wake, spread_eq, bareDelay_natCast, ← pause]
      split
      · next hpos => rw [max_eq_right hpos.le]
      · next hneg => rw [max_eq_left (not_lt.1 hneg), add_zero]
    rw [arrival, hwake, ih, hsum, add_assoc]

theorem factor_bounds {u : Rat} (hlow : 0 ≤ u) (hhigh : u ≤ 1) :
    1 / 2 ≤ p.factor u ∧ p.factor u ≤ 3 / 2 := by
  unfold factor
  split
  · constructor <;> linarith
  · norm_num

theorem capped_le_capped_succ (hbase : 0 ≤ p.baseDelay) (hgrowth : 1 ≤ p.growth) (n : Nat) :
    p.capped n ≤ p.capped (n + 1) := by
  have hpow : p.growth ^ n ≤ p.growth ^ (n + 1) := pow_le_pow_right₀ hgrowth n.le_succ
  exact min_le_min_right _ (mul_le_mul_of_nonneg_left hpow hbase)

theorem pause_le (hbase : 0 ≤ p.baseDelay) (hmax : 0 ≤ p.maxDelay) (hgrowth : 1 ≤ p.growth)
    (hlow : 0 ≤ u.after n) (hhigh : u.after n ≤ 1) : p.pause u n ≤ 3 / 2 * p.maxDelay := by
  have hcapped : 0 ≤ p.capped n :=
    le_min (mul_nonneg hbase (pow_nonneg (zero_le_one.trans hgrowth) n)) hmax
  calc p.pause u n
      ≤ p.capped n * (3 / 2) := mul_le_mul_of_nonneg_left (factor_bounds hlow hhigh).2 hcapped
    _ ≤ p.maxDelay * (3 / 2) := mul_le_mul_of_nonneg_right (min_le_right _ _) (by norm_num)
    _ = 3 / 2 * p.maxDelay := mul_comm _ _

/-- The only way out of the range is a power that is too large. -/
theorem outOfRange?_natCast (h : p.outOfRange? n ≠ none) : p.outOfRange? n = some .overflow := by
  have hnat : ¬ (p.growth = 0 ∧ (n : Int) < 0) := fun hneg => absurd hneg.2 (by omega)
  unfold outOfRange? at h ⊢
  rw [if_neg hnat] at h ⊢
  split at h
  · exact absurd rfl h
  · next hfinite => rw [if_neg hfinite]

/-! ## The breaker -/

/-- How a call with a script uses its breaker up to its last attempt: it asks before each attempt,
and tells of the last outcome. -/
def uses (p : RetryPolicy) (u : Draws) (outcomes : Nat → Except Failure α) (now : Rat)
    (last : Nat) : Breaker.History :=
  (List.range (last + 1)).map (fun n => (now + p.elapsed u n, .check)) ++
    [(now + p.elapsed u last, .ofOutcome (outcomes last))]

end RetryPolicy

/-- A breaker that has let a call through stays as it is when it is asked again. -/
theorem Breaker.run_checks {b : Breaker} (h : (b.check now).2 = .ok ()) (p : RetryPolicy)
    (u : Draws) (n : Nat) :
    b.run ((List.range (n + 1)).map fun i => (now + p.elapsed u i, .check)) = (b.check now).1 := by
  induction n with
  | zero => simp [run, after, RetryPolicy.elapsed]
  | succ n ih =>
    rw [List.range_succ, List.map_append, List.map_singleton, run_append_singleton, ih, after,
      check_again h]

theorem Breaker.run_uses (hpasses : Passes breaker? now) (p : RetryPolicy) (u : Draws)
    (outcomes : Nat → Except Failure α) (n : Nat) :
    (passed breaker? now).map (·.after (now + p.elapsed u n) (.ofOutcome (outcomes n))) =
      breaker?.map (·.run (p.uses u outcomes now n)) := by
  cases breaker? with
  | none => rfl
  | some b =>
    simp only [passed, Option.map_some]
    rw [RetryPolicy.uses, run_append_singleton, run_checks (hpasses b rfl)]

/-! ## The call -/

/-- The end of a call with a script as it should be: its last attempt is the one that the script
decides, each attempt is made when the sleeps before it are over, the result is the last outcome,
and that is all that the breaker was told of. -/
structure CallEnd.Plays (e : CallEnd Nat α) (p : RetryPolicy) (u : Draws)
    (outcomes : Nat → Except Failure α) (breaker? : Option Breaker) (now : Rat) : Prop where
  made : e.state = p.lastAttempt outcomes + 1
  result : e.result = outcomes (p.lastAttempt outcomes)
  times : e.attempts = (List.range (p.lastAttempt outcomes + 1)).map fun n => now + p.elapsed u n
  ended : e.now = now + p.elapsed u (p.lastAttempt outcomes)
  breaker : e.breaker? = breaker?.map (·.run (p.uses u outcomes now (p.lastAttempt outcomes)))

/-- From an attempt on, a call makes one attempt after the other up to the first that ends it. The
induction is on the number of attempts until then. -/
theorem runAttempts_playScript {last left : Nat} {b? : Option Breaker} {result : Except Failure α}
    (hpasses : Breaker.Passes breaker? (p.arrival u now n)) (hleft : p.maxRetries ≤ n + left)
    (hle : n ≤ last)
    (hgoes : ∀ i, n ≤ i → i < last → ¬ p.IsLast i (outcomes i) ∧ p.outOfRange? i = none)
    (hends : CallPhase.settle p (u.after last) last (outcomes last)
      (Breaker.passed breaker? (p.arrival u now n)) (p.arrival u now last) = (b?, .ended result)) :
    runAttempts p u (playScript outcomes) left n n breaker? (p.arrival u now n) =
      ⟨result, last + 1, b?, p.arrival u now last,
        (List.range' n (last + 1 - n)).map (p.arrival u now)⟩ := by
  induction hmany : last - n generalizing n left breaker? with
  | zero =>
    obtain rfl : n = last := by omega
    rw [runAttempts_of_ended hpasses hends]
    simp [playScript]
  | succ many ih =>
    obtain ⟨hnot, hrange⟩ := hgoes n (Nat.le_refl n) (by omega)
    obtain ⟨f, hf⟩ : ∃ f, outcomes n = .error f := by
      cases h : outcomes n with
      | ok a => rw [h] at hnot; exact absurd trivial hnot
      | error f => exact ⟨f, rfl⟩
    rw [hf] at hnot
    have hagain : p.Again n f := not_not.1 hnot
    -- the policy allows another attempt, so one is left
    obtain ⟨left, rfl⟩ : ∃ left', left = left' + 1 :=
      ⟨left - 1, by have := hagain.1; omega⟩
    have hasleep : CallPhase.settle p (u.after n) n (playScript outcomes (p.arrival u now n) n).2
        (Breaker.passed breaker? (p.arrival u now n)) (p.arrival u now n) =
          (Breaker.passed breaker? (p.arrival u now n),
            .asleep (n + 1) (p.arrival u now (n + 1))) := by
      rw [playScript, hf, CallPhase.settle_again _ _ _ _ _ hagain, hrange]
      rfl
    have hleft' : p.maxRetries ≤ (n + 1 : Nat) + left := by
      push_cast at hleft ⊢
      omega
    have hrest := ih (Breaker.passes_again hpasses (p.arrival u now (n + 1))) hleft' (by omega)
      (fun i hi => hgoes i (by omega))
      (by rw [Breaker.passed_again hpasses]; exact hends) (by omega)
    have htimes : last + 1 - n = last + 1 - (n + 1) + 1 := by omega
    rw [runAttempts_of_asleep hpasses hasleep]
    simp only [playScript] at hrest ⊢
    rw [hrest, htimes, List.range'_succ, List.map_cons]

/-- A call makes one attempt after the other up to the first that ends it. -/
theorem runCall_playScript {last : Nat} {b? : Option Breaker} {result : Except Failure α}
    (hpasses : Breaker.Passes breaker? now)
    (hgoes : ∀ i < last, ¬ p.IsLast i (outcomes i) ∧ p.outOfRange? i = none)
    (hends : CallPhase.settle p (u.after last) last (outcomes last)
      (Breaker.passed breaker? now) (now + p.elapsed u last) = (b?, .ended result)) :
    runCall p u (playScript outcomes) 0 breaker? now =
      ⟨result, last + 1, b?, now + p.elapsed u last,
        (List.range (last + 1)).map fun n => now + p.elapsed u n⟩ := by
  have harrival : p.arrival u now = fun n => now + p.elapsed u n := funext (p.arrival_eq u now)
  have hstart : p.arrival u now 0 = now := rfl
  have hleft : p.maxRetries ≤ (0 : Nat) + p.maxRetries.toNat := by
    have := Int.self_le_toNat p.maxRetries
    omega
  rw [← congrFun harrival last, ← hstart] at hends
  rw [← hstart] at hpasses
  have hall := runAttempts_playScript hpasses hleft (Nat.zero_le last) (fun i _ => hgoes i) hends
  rw [hstart, harrival] at hall
  rw [List.range_eq_range']
  exact hall

/-- With delays in range, a call ends with the attempt that the script decides. -/
theorem runCall_plays (hpasses : Breaker.Passes breaker? now)
    (hrange : p.InRange (p.lastAttempt outcomes)) :
    (runCall p u (playScript outcomes) 0 breaker? now).Plays p u outcomes breaker? now := by
  have hlast := p.isLast_lastAttempt outcomes
  have hends := CallPhase.settle_eq_settleBy p (u.after (p.lastAttempt outcomes))
    (p.lastAttempt outcomes) (outcomes (p.lastAttempt outcomes)) (Breaker.passed breaker? now)
    (now + p.elapsed u (p.lastAttempt outcomes))
  rw [CallPhase.settleBy, if_pos hlast, Breaker.run_uses hpasses] at hends
  rw [runCall_playScript hpasses
    (fun i hi => ⟨RetryPolicy.not_isLast_of_lt hi, hrange i hi⟩) hends]
  exact ⟨rfl, rfl, rfl, rfl, rfl⟩

/-- With delays that double, a policy may allow a thousand retries and more. -/
theorem runCall_plays_of_doubling (hpasses : Breaker.Passes breaker? now) (hdoubles : p.growth = 2)
    (hretries : p.maxRetries ≤ 1024) :
    (runCall p u (playScript outcomes) 0 breaker? now).Plays p u outcomes breaker? now := by
  have hlast := p.lastAttempt_le outcomes
  exact runCall_plays hpasses ((RetryPolicy.inRange_iff_of_doubling hdoubles _).2 (by omega))

/-- A delay that is out of range ends a call: it was to make another attempt and makes none, and the
breaker is told of nothing. -/
theorem runCall_of_overflow (hpasses : Breaker.Passes breaker? now)
    (hlt : n < p.lastAttempt outcomes) (hrange : p.InRange n) (hout : p.outOfRange? n ≠ none) :
    runCall p u (playScript outcomes) 0 breaker? now =
      ⟨.error (.plain .overflow none), n + 1, Breaker.passed breaker? now, now + p.elapsed u n,
        (List.range (n + 1)).map fun i => now + p.elapsed u i⟩ := by
  have hnot := RetryPolicy.not_isLast_of_lt hlt
  refine runCall_playScript hpasses
    (fun i hi => ⟨RetryPolicy.not_isLast_of_lt (hi.trans hlt), hrange i hi⟩) ?_
  rw [CallPhase.settle_eq_settleBy, CallPhase.settleBy, if_neg hnot, RetryPolicy.reckoning,
    RetryPolicy.delay, RetryPolicy.outOfRange?_natCast hout]

/-- A call that its breaker lets through plays its script exactly if the delays before its last
attempt are in range; the first that is not ends it with an overflow. Delays are spread by half of
themselves at most; with sensible bounds they do not shrink before that, and none is longer than one
and a half times the greatest. -/
theorem script_is_played_iff (p : RetryPolicy) (u : Draws) (outcomes : Nat → Except Failure α)
    (hpasses : Breaker.Passes breaker? now)
    (hdraws : ∀ n, 0 ≤ u.after n ∧ u.after n ≤ 1) :
    ((runCall p u (playScript outcomes) 0 breaker? now).Plays p u outcomes breaker? now ↔
        p.InRange (p.lastAttempt outcomes)) ∧
      (∀ n < p.lastAttempt outcomes, p.InRange n → p.outOfRange? n ≠ none →
        runCall p u (playScript outcomes) 0 breaker? now =
          ⟨.error (.plain .overflow none), n + 1, Breaker.passed breaker? now,
            now + p.elapsed u n, (List.range (n + 1)).map fun i => now + p.elapsed u i⟩) ∧
      (p.jitter = false → ∀ n, p.pause u n = p.capped n) ∧
      (∀ n, ∃ factor, 1 / 2 ≤ factor ∧ factor ≤ 3 / 2 ∧ p.pause u n = p.capped n * factor) ∧
      (0 ≤ p.baseDelay → 0 ≤ p.maxDelay → 1 ≤ p.growth →
        (∀ n, p.capped n ≤ p.capped (n + 1)) ∧ ∀ n, p.pause u n ≤ 3 / 2 * p.maxDelay) := by
  have hoverflow : ∀ n < p.lastAttempt outcomes, p.InRange n → p.outOfRange? n ≠ none → _ :=
    fun n hlt hrange hout => runCall_of_overflow (u := u) hpasses hlt hrange hout
  refine ⟨⟨fun hplays => ?_, runCall_plays hpasses⟩, hoverflow, ?_, ?_, ?_⟩
  · -- the first delay that is out of range would end the call too early
    by_contra hnot
    have hex : ∃ n, n < p.lastAttempt outcomes ∧ p.outOfRange? n ≠ none := by
      simpa [RetryPolicy.InRange] using hnot
    obtain ⟨hlt, hout⟩ := Nat.find_spec hex
    have hrange : p.InRange (Nat.find hex) := by
      intro i hi
      by_contra hi'
      exact Nat.find_min hex hi ⟨hi.trans hlt, hi'⟩
    have hmade := hplays.made
    rw [hoverflow _ hlt hrange hout] at hmade
    exact absurd (Nat.succ.inj hmade) hlt.ne
  · intro hjitter n
    rw [RetryPolicy.pause, RetryPolicy.factor, if_neg (by simp [hjitter]), mul_one]
  · intro n
    obtain ⟨hlow, hhigh⟩ := RetryPolicy.factor_bounds (p := p) (hdraws n).1 (hdraws n).2
    exact ⟨p.factor (u.after n), hlow, hhigh, rfl⟩
  · intro hbase hmax hgrowth
    exact ⟨RetryPolicy.capped_le_capped_succ hbase hgrowth, fun n =>
      RetryPolicy.pause_le hbase hmax hgrowth (hdraws n).1 (hdraws n).2⟩

/-- A connection is lost, the service is overloaded, and then there is a result. -/
def falteringScript : Nat → Except Failure String
  | 0 => .error (.plain .connection none)
  | 1 => .error (.status 503 "overloaded")
  | _ => .ok "done"

/-- A breaker that lets probes through. -/
def probedBreaker : Breaker := { Breaker.new "store" {} with circuit := .halfOpen, failures := 5 }

/-- With a script that falters twice, the call makes three attempts and the breaker counts one
success. -/
theorem faltering_script_is_played :
    Breaker.Passes (some probedBreaker) 0 ∧
      (∀ n, 0 ≤ ((1 / 4 : Rat) : Draws).after n ∧ ((1 / 4 : Rat) : Draws).after n ≤ 1) ∧
      (runCall {} (1 / 4 : Rat) (playScript falteringScript) 0 (some probedBreaker) 0).Plays {}
        (1 / 4 : Rat) falteringScript (some probedBreaker) 0 ∧
      (runCall {} (1 / 4 : Rat) (playScript falteringScript) 0 (some probedBreaker) 0).attempts =
        [0, 3 / 8, 9 / 8] ∧
      (runCall {} (1 / 4 : Rat) (playScript falteringScript) 0 (some probedBreaker) 0).breaker? =
        some { probedBreaker with successes := 1 } := by
  have hpasses : Breaker.Passes (some probedBreaker) 0 := fun b hb => Option.some.inj hb ▸ rfl
  have hdraws (n : Nat) :
      0 ≤ ((1 / 4 : Rat) : Draws).after n ∧ ((1 / 4 : Rat) : Draws).after n ≤ 1 := by
    change (0 : Rat) ≤ 1 / 4 ∧ (1 / 4 : Rat) ≤ 1
    decide +kernel
  have hplays := (script_is_played_iff {} (1 / 4 : Rat) falteringScript hpasses hdraws).1.2
    (by decide +kernel)
  have hlast : ({} : RetryPolicy).lastAttempt falteringScript = 2 := by decide +kernel
  refine ⟨hpasses, hdraws, hplays, ?_, ?_⟩
  · rw [hplays.times, hlast]
    decide +kernel
  · rw [hplays.breaker, hlast]
    decide +kernel

/-- A policy whose delays leave the range of numbers with the third. -/
def leapingPolicy : RetryPolicy := { growth := Rat.zpow 2 600, jitter := false }

/-- A connection is lost as often as the policy allows, and then there is a result. -/
def barelyScript (n : Nat) : Except Failure String :=
  if n < 3 then .error (.plain .connection none) else .ok "done"

/-- The third failure is worth another attempt and the policy allows one, and yet the call ends
there, with a failure that is none of its script's, and without a word to the breaker. -/
theorem third_delay_ends_call :
    leapingPolicy.lastAttempt barelyScript = 3 ∧
      runCall leapingPolicy (1 / 2 : Rat) (playScript barelyScript) 0 (some (.new "store" {})) 0 =
        ⟨.error (.plain .overflow none), 3, some (.new "store" {}), 21 / 2, [0, 1 / 2, 21 / 2]⟩ ∧
      ¬ (runCall leapingPolicy (1 / 2 : Rat) (playScript barelyScript) 0
        (some (.new "store" {})) 0).Plays leapingPolicy (1 / 2 : Rat) barelyScript
          (some (.new "store" {})) 0 := by
  have hlast : leapingPolicy.lastAttempt barelyScript = 3 := by decide +kernel
  have hlt : 2 < leapingPolicy.lastAttempt barelyScript := by
    rw [hlast]
    decide
  have hpasses : Breaker.Passes (some (.new "store" {})) 0 := fun b hb => Option.some.inj hb ▸ rfl
  have hend := runCall_of_overflow (u := ((1 / 2 : Rat) : Draws)) hpasses hlt (by decide +kernel)
    (by decide +kernel)
  have hnow : 0 + leapingPolicy.elapsed (1 / 2 : Rat) 2 = 21 / 2 := by decide +kernel
  have htimes : ((List.range 3).map fun i => 0 + leapingPolicy.elapsed (1 / 2 : Rat) i) =
      [0, 1 / 2, 21 / 2] := by decide +kernel
  rw [hnow, htimes] at hend
  refine ⟨hlast, hend, fun hplays => ?_⟩
  have hmade := hplays.made
  rw [hend, hlast] at hmade
  cases hmade

end DeferredSave
