import DeferredSave.Retry.Call

/-! The attempts of a call that is run on its own.

Which attempts a call makes depends on its policy and on the outcomes alone: a breaker that lets the
first of them through lets all of them through. So a call either is refused at once, or ends with
the one attempt that no other follows. -/

namespace DeferredSave

/-! ### Breakers before an attempt -/

namespace Breaker

/-- Whether every breaker that there is lets a call through now. -/
def Passes (breaker? : Option Breaker) (now : Rat) : Prop :=
  ∀ b ∈ breaker?, (b.check now).2 = .ok ()

/-- A breaker after it was asked. -/
def passed (breaker? : Option Breaker) (now : Rat) : Option Breaker :=
  breaker?.map fun b => (b.check now).1

/-- A breaker that has let a call through is no longer open, and is asked in vain from then on. -/
theorem check_again {b : Breaker} {now : Rat} (h : (b.check now).2 = .ok ()) (later : Rat) :
    (b.check now).1.check later = ((b.check now).1, .ok ()) := by
  unfold check at h ⊢
  cases hc : b.circuit with
  | closed => simp [hc]
  | halfOpen => simp [hc]
  | opened =>
    simp only [hc] at h
    split at h
    · simp at h
    · next hd => simp [hd]

theorem passes_again {breaker? : Option Breaker} {now : Rat} (h : Passes breaker? now)
    (later : Rat) : Passes (passed breaker? now) later := by
  intro b hb
  obtain ⟨b, hmem, rfl⟩ := Option.map_eq_some_iff.1 hb
  rw [check_again (h b hmem)]

theorem passed_again {breaker? : Option Breaker} {now : Rat} (h : Passes breaker? now)
    (later : Rat) : passed (passed breaker? now) later = passed breaker? now := by
  cases breaker? with
  | none => rfl
  | some b => simp [passed, check_again (h b rfl)]

end Breaker

namespace CallPhase

variable {α : Type}

theorem attempt_of_passes {breaker? : Option Breaker} {now : Rat}
    (h : Breaker.Passes breaker? now) (n : Nat) :
    attempt (α := α) n breaker? now = (Breaker.passed breaker? now, trying n) := by
  cases breaker? with
  | none => rfl
  | some b =>
    have hb : (b.check now).2 = .ok () := h b rfl
    unfold attempt
    split
    · next h' => cases h'
    · next h' =>
      cases h'
      split
      · next hc => simp [Breaker.passed, hc]
      · next hc => simp [hc] at hb

theorem attempt_of_refusal {b : Breaker} {now : Rat} (h : (b.check now).2 ≠ .ok ()) (n : Nat) :
    ∃ o, attempt (α := α) n (some b) now
      = (some (b.check now).1, ended (.error (.circuitOpen o))) := by
  unfold attempt
  simp only
  split
  · next hc => simp [hc] at h
  · next b' o hc => exact ⟨o, by rw [hc]⟩

end CallPhase

/-! ### After an attempt -/

namespace RetryPolicy

/-- When the delay after an attempt at a time is over. -/
def wake (p : RetryPolicy) (u : Rat) (attempt : Nat) (now : Rat) : Rat :=
  if 0 < p.spread u (p.bareDelay attempt) then now + p.spread u (p.bareDelay attempt) else now

/-- When a call that began at a time makes its `n`-th attempt. -/
def arrival (p : RetryPolicy) (u : Draws) (now : Rat) : Nat → Rat
  | 0 => now
  | n + 1 => p.wake (u.after n) n (p.arrival u now n)

/-- Whether the delays after the first attempts are in range. -/
def InRange (p : RetryPolicy) (count : Nat) : Prop := ∀ n < count, p.outOfRange? n = none

instance (p : RetryPolicy) (count : Nat) : Decidable (p.InRange count) :=
  inferInstanceAs (Decidable (∀ n < count, p.outOfRange? n = none))

/-- Whether a failure of an attempt is worth another, and there may be one. -/
def Again (p : RetryPolicy) (attempt : Nat) (f : Failure) : Prop :=
  attempt < p.maxRetries ∧ p.retries f = true

instance (p : RetryPolicy) (attempt : Nat) (f : Failure) : Decidable (p.Again attempt f) :=
  inferInstanceAs (Decidable (_ ∧ _))

end RetryPolicy

namespace CallPhase

variable {α : Type} (p : RetryPolicy) (u : Rat) (n : Nat) (breaker? : Option Breaker) (now : Rat)

@[simp] theorem settle_ok (a : α) :
    settle p u n (.ok a) breaker? now = (breaker?.map (·.recordSuccess), ended (.ok a)) := rfl

theorem settle_last {f : Failure} (h : ¬ p.Again n f) :
    settle (α := α) p u n (.error f) breaker? now
      = (breaker?.map (·.recordFailure now f.kind), ended (.error f)) := by
  have : (p.maxRetries ≤ n || !p.retries f) = true := by
    by_cases hn : p.maxRetries ≤ n
    · simp [hn]
    · have : p.retries f = false :=
        Bool.eq_false_iff.2 fun hf => h ⟨Int.not_le.1 hn, hf⟩
      simp [this]
  simp [settle, this]

theorem settle_again {f : Failure} (h : p.Again n f) :
    settle (α := α) p u n (.error f) breaker? now =
      match p.outOfRange? n with
      | none => (breaker?, asleep (n + 1) (p.wake u n now))
      | some kind => (breaker?, ended (.error (.plain kind none))) := by
  have : (p.maxRetries ≤ n || !p.retries f) = false := by
    simp [Int.not_le.2 h.1, h.2]
  simp only [settle, this, RetryPolicy.delay, RetryPolicy.wake]
  cases p.outOfRange? n <;> simp

/-- An attempt ends its call, or it failed with something worth another and the delay before that
is in range. -/
theorem settle_cases (outcome : Except Failure α) :
    (∃ b? result, settle p u n outcome breaker? now = (b?, ended result)) ∨
      ∃ f, outcome = .error f ∧ p.Again n f ∧ p.outOfRange? n = none ∧
        settle p u n outcome breaker? now = (breaker?, asleep (n + 1) (p.wake u n now)) := by
  cases outcome with
  | ok a => exact .inl ⟨_, _, rfl⟩
  | error f =>
    by_cases ha : p.Again n f
    · rw [settle_again _ _ _ _ _ ha]
      cases hr : p.outOfRange? n with
      | none => exact .inr ⟨f, rfl, ha, rfl, rfl⟩
      | some kind => exact .inl ⟨_, _, rfl⟩
    · exact .inl ⟨_, _, settle_last _ _ _ _ _ ha⟩

/-- A call that ends with an attempt that failed has failed. -/
theorem failed_of_settle {f : Failure} {b? : Option Breaker} {result : Except Failure α}
    (h : settle p u n (.error f) breaker? now = (b?, ended result)) : ∃ f', result = .error f' := by
  by_cases ha : p.Again n f
  · rw [settle_again _ _ _ _ _ ha] at h
    split at h
    · cases h
    · exact ⟨_, (ended.inj (Prod.mk.inj h).2).symm⟩
  · rw [settle_last _ _ _ _ _ ha] at h
    exact ⟨_, (ended.inj (Prod.mk.inj h).2).symm⟩

end CallPhase

/-! ### The attempts of a call -/

section Attempts

variable {σ α : Type} {p : RetryPolicy} {u : Draws} {invoke : Rat → σ → σ × Except Failure α}
  {s : σ} {now : Rat}

/-- The attempts of a call that begins in a state at a time: the number of the attempt, the state
that it is made in, and when. -/
inductive Attempted (p : RetryPolicy) (u : Draws) (invoke : Rat → σ → σ × Except Failure α)
    (s : σ) (now : Rat) : Nat → σ → Rat → Prop where
  | first : Attempted p u invoke s now 0 s now
  | again {n : Nat} {s' : σ} {t : Rat} {f : Failure} (made : Attempted p u invoke s now n s' t)
      (failed : (invoke t s').2 = .error f) (worth : p.Again n f)
      (inRange : p.outOfRange? n = none) :
      Attempted p u invoke s now (n + 1) (invoke t s').1 (p.wake (u.after n) n t)

namespace Attempted

theorem unique {n : Nat} {s₁ s₂ : σ} {t₁ t₂ : Rat} (h₁ : Attempted p u invoke s now n s₁ t₁)
    (h₂ : Attempted p u invoke s now n s₂ t₂) : s₁ = s₂ ∧ t₁ = t₂ := by
  induction h₁ generalizing s₂ t₂ with
  | first => cases h₂; exact ⟨rfl, rfl⟩
  | again _ _ _ _ ih =>
    cases h₂ with
    | again made _ _ _ =>
      obtain ⟨rfl, rfl⟩ := ih made
      exact ⟨rfl, rfl⟩

theorem inRange {n : Nat} {s' : σ} {t : Rat} (h : Attempted p u invoke s now n s' t) :
    p.InRange n := by
  induction h with
  | first => exact fun k hk => absurd hk (by omega)
  | @again n _ _ _ _ _ _ hr ih =>
    intro k hk
    rcases Nat.lt_succ_iff_lt_or_eq.1 hk with hk | rfl
    · exact ih k hk
    · exact hr

/-- Every attempt before another failed with something worth that. -/
theorem followed {m : Nat} {s' : σ} {t : Rat} (h : Attempted p u invoke s now m s' t) {n : Nat}
    {sn : σ} {tn : Rat} (hn : Attempted p u invoke s now n sn tn) (hlt : n < m) :
    ∃ f, (invoke tn sn).2 = .error f ∧ p.Again n f ∧ p.outOfRange? n = none := by
  induction h with
  | first => omega
  | @again m s' t f made failed worth inRange ih =>
    rcases Nat.lt_succ_iff_lt_or_eq.1 hlt with hlt | rfl
    · exact ih hlt
    · obtain ⟨rfl, rfl⟩ := hn.unique made
      exact ⟨f, failed, worth, inRange⟩

end Attempted

/-- A call ended with the outcome of an attempt, where its breaker had let it through. -/
structure CallEnd.EndedAt (e : CallEnd σ α) (p : RetryPolicy) (u : Draws)
    (invoke : Rat → σ → σ × Except Failure α) (breaker? : Option Breaker) (n : Nat) (s : σ)
    (t : Rat) : Prop where
  state : e.state = (invoke t s).1
  now : e.now = t
  settled : CallPhase.settle p (u.after n) n (invoke t s).2 breaker? t
    = (e.breaker?, .ended e.result)

theorem runAttempts_of_ended {breaker? b? : Option Breaker} {n : Nat} {t : Rat}
    {result : Except Failure α} (hp : Breaker.Passes breaker? t)
    (h : CallPhase.settle p (u.after n) n (invoke t s).2 (Breaker.passed breaker? t) t
      = (b?, .ended result)) (left : Nat) :
    runAttempts p u invoke left n s breaker? t = ⟨result, (invoke t s).1, b?, t, [t]⟩ := by
  unfold runAttempts
  simp only [CallPhase.attempt_of_passes hp, h]

theorem runAttempts_of_asleep {breaker? b? : Option Breaker} {n m : Nat} {t wake : Rat}
    (hp : Breaker.Passes breaker? t)
    (h : CallPhase.settle p (u.after n) n (invoke t s).2 (Breaker.passed breaker? t) t
      = (b?, .asleep m wake)) (left : Nat) :
    runAttempts p u invoke (left + 1) n s breaker? t =
      let rest := runAttempts p u invoke left m (invoke t s).1 b? wake
      { rest with attempts := t :: rest.attempts } := by
  rw [runAttempts]
  simp only [CallPhase.attempt_of_passes hp, h]

/-- From any of its attempts, a call goes on to one that it ends with. The attempts that are left
are counted down, so that after the last of them the policy allows no other. -/
theorem runAttempts_endedAt {breaker? : Option Breaker} (left : Nat) {n : Nat} {s' : σ} {t : Rat}
    (hp : Breaker.Passes breaker? t) (hleft : p.maxRetries ≤ n + left)
    (h : Attempted p u invoke s now n s' t) :
    ∃ m s'' t', Attempted p u invoke s now m s'' t' ∧
      (runAttempts p u invoke left n s' breaker? t).EndedAt p u invoke
        (Breaker.passed breaker? t) m s'' t' := by
  induction left generalizing n s' t breaker? with
  | zero =>
    rcases CallPhase.settle_cases p (u.after n) n (Breaker.passed breaker? t) t (invoke t s').2 with
      ⟨b?, result, hs⟩ | ⟨f, -, ha, -⟩
    · exact ⟨n, s', t, h, by rw [runAttempts_of_ended hp hs]; exact ⟨rfl, rfl, hs⟩⟩
    · -- no attempt is left, so none may follow
      have := ha.1
      omega
  | succ left ih =>
    rcases CallPhase.settle_cases p (u.after n) n (Breaker.passed breaker? t) t (invoke t s').2 with
      ⟨b?, result, hs⟩ | ⟨f, hf, ha, hr, hs⟩
    · exact ⟨n, s', t, h, by rw [runAttempts_of_ended hp hs]; exact ⟨rfl, rfl, hs⟩⟩
    · -- the breaker has been asked for this attempt, and lets the next one through as well
      obtain ⟨m, s'', t', hm, hend⟩ :=
        ih (Breaker.passes_again hp _) (by push_cast at hleft ⊢; omega) (h.again hf ha hr)
      rw [Breaker.passed_again hp] at hend
      exact ⟨m, s'', t', hm, by
        rw [runAttempts_of_asleep hp hs]; exact ⟨hend.state, hend.now, hend.settled⟩⟩

variable (p u invoke s) in
/-- A call that is not refused ends with one of its attempts. -/
theorem runCall_endedAt {breaker? : Option Breaker} (hp : Breaker.Passes breaker? now) :
    ∃ n s' t, Attempted p u invoke s now n s' t ∧
      (runCall p u invoke s breaker? now).EndedAt p u invoke
        (Breaker.passed breaker? now) n s' t :=
  runAttempts_endedAt _ hp (by have := Int.self_le_toNat p.maxRetries; omega) .first

/-- An attempt that ends a call is the one that the call ends with: an attempt before it is followed
by another, and none comes after it. -/
theorem runCall_eq {breaker? b? : Option Breaker} {n : Nat} {s' : σ} {t : Rat}
    {result : Except Failure α} (hp : Breaker.Passes breaker? now)
    (h : Attempted p u invoke s now n s' t)
    (hs : CallPhase.settle p (u.after n) n (invoke t s').2 (Breaker.passed breaker? now) t
      = (b?, .ended result)) :
    ∃ attempts, runCall p u invoke s breaker? now = ⟨result, (invoke t s').1, b?, t, attempts⟩ := by
  obtain ⟨m, s'', t', hm, hend⟩ := runCall_endedAt p u invoke s hp
  have hnot {n : Nat} {t : Rat} {o : Except Failure α} {b? : Option Breaker}
      {result : Except Failure α}
      (hs : CallPhase.settle p (u.after n) n o (Breaker.passed breaker? now) t
        = (b?, .ended result)) :
      ¬ ∃ f, o = .error f ∧ p.Again n f ∧ p.outOfRange? n = none := by
    rintro ⟨f, rfl, ha, hr⟩
    simp [CallPhase.settle_again _ _ _ _ _ ha, hr] at hs
  rcases Nat.lt_trichotomy m n with hlt | rfl | hlt
  · exact absurd (h.followed hm hlt) (hnot hend.settled)
  · obtain ⟨rfl, rfl⟩ := hm.unique h
    obtain ⟨hstate, hnow, hsettled⟩ := hend
    rw [hs] at hsettled
    generalize runCall p u invoke s breaker? now = e at *
    obtain ⟨result', state, b?', t, attempts⟩ := e
    simp only [Prod.mk.injEq, CallPhase.ended.injEq] at hstate hnow hsettled
    obtain ⟨rfl, rfl⟩ := hsettled
    exact ⟨attempts, by rw [hstate, hnow]⟩
  · exact absurd (hm.followed h hlt) (hnot hs)

variable (p u invoke s) in
/-- A call that its breaker refuses makes no attempt. -/
theorem runCall_of_refusal {b : Breaker} (h : (b.check now).2 ≠ .ok ()) :
    ∃ o, runCall p u invoke s (some b) now
      = ⟨.error (.circuitOpen o), s, some (b.check now).1, now, []⟩ := by
  obtain ⟨o, ho⟩ := CallPhase.attempt_of_refusal (α := α) h 0
  refine ⟨o, ?_⟩
  unfold runCall runAttempts
  simp only [ho]

end Attempts

end DeferredSave
