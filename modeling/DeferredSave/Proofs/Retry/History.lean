import DeferredSave.Retry.Breaker
import Mathlib.Data.List.Induction
import Mathlib.Algebra.Order.Ring.Unbundled.Rat

/-!
# A breaker and its history

A breaker keeps counts and the time of a failure. What it does can be told without them, from what
it was used for and when (`Breaker.follows_history`): which failure opens it, how long it refuses,
which call probes the service, and which success closes it again.
-/

namespace DeferredSave.Breaker

/-! ## Uses -/

/-- What a breaker is used for. -/
inductive Use where
  /-- To ask whether a call may go through. -/
  | check
  | success
  | failure (kind : FailureKind)
  | reset
deriving DecidableEq, Repr

/-- Whether a use is a failure that counts. -/
def Use.counted (b : Breaker) : Use → Bool
  | failure kind => b.counts kind
  | _ => false

/-- Whether a use ends a row of failures. -/
def Use.clears : Use → Bool
  | success | reset => true
  | _ => false

/-- The breaker after a use. -/
def after (b : Breaker) (now : Rat) : Use → Breaker
  | .check => (b.check now).1
  | .success => b.recordSuccess
  | .failure kind => b.recordFailure now kind
  | .reset => b.reset

variable {b : Breaker} {now : Rat} {u : Use}

theorem check_of_ne (hc : b.circuit ≠ .opened) (now : Rat) : b.check now = (b, .ok ()) := by
  unfold check
  cases h : b.circuit with
  | closed | halfOpen => rfl
  | opened => exact (hc h).elim

theorem check_of_opened (hc : b.circuit = .opened) (now : Rat) :
    b.check now =
      if 0 < b.untilProbe now then (b, .error ⟨b.service, b.untilProbe now⟩)
      else ({ b with circuit := .halfOpen, successes := 0 }, .ok ()) := by
  simp [check, hc]

theorem after_of_closed (hc : b.circuit = .closed) (now : Rat) (u : Use) :
    b.after now u =
      match u with
      | .check => b
      | .success => { b with failures := 0 }
      | .failure kind =>
        if b.counts kind then
          { b with
            circuit :=
              if b.policy.failureThreshold ≤ (b.failures + 1 : Nat) then .opened else .closed
            failures := b.failures + 1
            lastFailure := some now }
        else b
      | .reset => b.reset := by
  cases u with
  | check => simp [after, check_of_ne, hc]
  | success => simp [after, recordSuccess, hc]
  | failure kind =>
    simp only [after, recordFailure, addFailure, hc]
    split
    · split <;> simp_all
    · rfl
  | reset => rfl

theorem after_of_opened (hc : b.circuit = .opened) (now : Rat) (u : Use) :
    b.after now u =
      match u with
      | .check =>
        if 0 < b.untilProbe now then b else { b with circuit := .halfOpen, successes := 0 }
      | .success | .failure _ => b
      | .reset => b.reset := by
  cases u with
  | check => simp only [after, check_of_opened hc]; split <;> rfl
  | success => simp [after, recordSuccess, hc]
  | failure kind => simp [after, recordFailure, addFailure, hc]
  | reset => rfl

theorem after_of_halfOpen (hc : b.circuit = .halfOpen) (now : Rat) (u : Use) :
    b.after now u =
      match u with
      | .check => b
      | .success =>
        if b.policy.successThreshold ≤ (b.successes + 1 : Nat) then
          { b with circuit := .closed, successes := b.successes + 1, failures := 0 }
        else { b with successes := b.successes + 1 }
      | .failure kind =>
        if b.counts kind then
          { b with circuit := .opened, failures := b.failures + 1, lastFailure := some now }
        else b
      | .reset => b.reset := by
  cases u with
  | check => simp [after, check_of_ne, hc]
  | success => simp [after, recordSuccess, hc]
  | failure kind => simp [after, recordFailure, addFailure, hc]
  | reset => rfl

/-- No use changes what a breaker is for. -/
theorem after_same (b : Breaker) (now : Rat) (u : Use) :
    (b.after now u).service = b.service ∧ (b.after now u).policy = b.policy := by
  cases hc : b.circuit with
  | closed => rw [after_of_closed hc]; split <;> try split
              all_goals exact ⟨rfl, rfl⟩
  | opened => rw [after_of_opened hc]; split <;> try split
              all_goals exact ⟨rfl, rfl⟩
  | halfOpen => rw [after_of_halfOpen hc]; split <;> try split
                all_goals exact ⟨rfl, rfl⟩

/-! ## Histories -/

/-- Uses with their times, the oldest first. -/
abbrev History := List (Rat × Use)

/-- Time does not go back. -/
def History.Chronological (h : History) : Prop := h.Pairwise fun e e' => e.1 ≤ e'.1

instance (h : History) : Decidable h.Chronological :=
  inferInstanceAs (Decidable (h.Pairwise fun e e' => e.1 ≤ e'.1))

/-- The breaker after a history. -/
def run (b : Breaker) (h : History) : Breaker := h.foldl (fun b e => b.after e.1 e.2) b

variable {h : History} {c : Circuit}

@[simp] theorem run_nil (b : Breaker) : b.run [] = b := rfl

@[simp] theorem run_append_singleton (b : Breaker) (h : History) (e : Rat × Use) :
    b.run (h ++ [e]) = (b.run h).after e.1 e.2 := by
  simp [run]

@[simp] theorem service_run (b : Breaker) (h : History) : (b.run h).service = b.service := by
  induction h using List.reverseRecOn with
  | nil => rfl
  | append_singleton h e ih => rw [run_append_singleton, (after_same _ _ _).1, ih]

@[simp] theorem policy_run (b : Breaker) (h : History) : (b.run h).policy = b.policy := by
  induction h using List.reverseRecOn with
  | nil => rfl
  | append_singleton h e ih => rw [run_append_singleton, (after_same _ _ _).2, ih]

/-- What counts is a matter of the policy. -/
theorem counts_run (b : Breaker) (h : History) (kind : FailureKind) :
    (b.run h).counts kind = b.counts kind := by
  simp [counts]

/-! ### What a history tells -/

/-- The failures that count since the last success or reset. -/
def failuresInARow (b : Breaker) (h : History) : Nat :=
  (h.reverse.takeWhile fun e => !e.2.clears).countP fun e => e.2.counted b

/-- The successes of a history. -/
def successesIn (h : History) : Nat := h.countP fun e => e.2 = .success

@[simp] theorem failuresInARow_nil (b : Breaker) : b.failuresInARow [] = 0 := rfl

@[simp] theorem failuresInARow_append_singleton (b : Breaker) (h : History) (e : Rat × Use) :
    b.failuresInARow (h ++ [e]) =
      if e.2.clears then 0 else b.failuresInARow h + if e.2.counted b then 1 else 0 := by
  unfold failuresInARow
  rw [List.reverse_append, List.reverse_singleton, List.singleton_append, List.takeWhile_cons]
  cases e.2.clears <;> simp [List.countP_cons]

@[simp] theorem successesIn_nil : successesIn [] = 0 := rfl

@[simp] theorem successesIn_append_singleton (h : History) (e : Rat × Use) :
    successesIn (h ++ [e]) = successesIn h + if e.2 = .success then 1 else 0 := by
  simp [successesIn, List.countP_append, List.countP_singleton]

/-- The circuit is in a state since a use that brought it there; `later` came after that. -/
inductive Since (b : Breaker) (c : Circuit) : History → Rat × Use → History → Prop where
  | enters {h : History} {e : Rat × Use} :
      (b.run h).circuit ≠ c → (b.run (h ++ [e])).circuit = c → Since b c (h ++ [e]) e []
  | stays {h later : History} {e e' : Rat × Use} :
      Since b c h e later → (b.run (h ++ [e'])).circuit = c →
      Since b c (h ++ [e']) e (later ++ [e'])

namespace Since

variable {e e' : Rat × Use} {later later' : History}

theorem circuit (hs : Since b c h e later) : (b.run h).circuit = c := by
  cases hs with
  | enters _ hc => exact hc
  | stays _ hc => exact hc

theorem mem (hs : Since b c h e later) : e ∈ h := by
  induction hs with
  | enters => simp
  | stays _ _ ih => exact List.mem_append_left _ ih

/-- There is one such use. -/
theorem unique (hs : Since b c h e later) (hs' : Since b c h e' later') :
    e = e' ∧ later = later' := by
  -- the last use entered the state in both, or in neither: before an entry the state is another
  induction hs generalizing e' later' with
  | @enters h e hne _ =>
    generalize hh : h ++ [e] = h₁ at hs'
    cases hs' with
    | enters _ _ =>
      obtain ⟨-, heq⟩ := List.append_inj' hh rfl
      exact ⟨List.singleton_inj.1 heq, rfl⟩
    | stays hs' _ =>
      obtain ⟨rfl, -⟩ := List.append_inj' hh rfl
      exact absurd hs'.circuit hne
  | @stays h later e₀ e hs _ ih =>
    generalize hh : h ++ [e] = h₁ at hs'
    cases hs' with
    | enters hne _ =>
      obtain ⟨rfl, -⟩ := List.append_inj' hh rfl
      exact absurd hs.circuit hne
    | stays hs' _ =>
      obtain ⟨rfl, heq⟩ := List.append_inj' hh rfl
      obtain ⟨rfl, rfl⟩ := ih hs'
      exact ⟨rfl, by rw [heq]⟩

end Since

/-! ## Counts and history -/

/-- The counts of a breaker are those of its history, and within its thresholds. -/
structure Remembers (b : Breaker) (h : History) : Prop where
  closed : (b.run h).circuit = .closed →
    (b.run h).failures = b.failuresInARow h ∧
      ((b.run h).failures : Int) < b.policy.failureThreshold
  opened : (b.run h).circuit = .opened →
    ∃ t v later, b.Since .opened h (t, v) later ∧ (b.run h).lastFailure = some t
  halfOpen : (b.run h).circuit = .halfOpen →
    ∃ e later, b.Since .halfOpen h e later ∧ (b.run h).successes = successesIn later ∧
      (∀ e' ∈ later, e'.2.counted b = false) ∧
      ((b.run h).successes : Int) < b.policy.successThreshold

namespace Remembers

theorem of_closed (hc : (b.run h).circuit = .closed)
    (hcount : (b.run h).failures = b.failuresInARow h)
    (hlt : ((b.run h).failures : Int) < b.policy.failureThreshold) : Remembers b h where
  closed := fun _ => ⟨hcount, hlt⟩
  opened := by simp [hc]
  halfOpen := by simp [hc]

theorem of_opened {t : Rat} {v : Use} {later : History} (hs : b.Since .opened h (t, v) later)
    (hlast : (b.run h).lastFailure = some t) : Remembers b h where
  closed := by simp [hs.circuit]
  opened := fun _ => ⟨t, v, later, hs, hlast⟩
  halfOpen := by simp [hs.circuit]

theorem of_halfOpen {e : Rat × Use} {later : History} (hs : b.Since .halfOpen h e later)
    (hcount : (b.run h).successes = successesIn later)
    (hnone : ∀ e' ∈ later, e'.2.counted b = false)
    (hlt : ((b.run h).successes : Int) < b.policy.successThreshold) : Remembers b h where
  closed := by simp [hs.circuit]
  opened := by simp [hs.circuit]
  halfOpen := fun _ => ⟨e, later, hs, hcount, hnone, hlt⟩

variable (hfailure : 1 ≤ b.policy.failureThreshold) (hsuccess : 1 ≤ b.policy.successThreshold)
include hfailure

theorem of_cleared (hc : (b.run h).circuit = .closed) (hzero : (b.run h).failures = 0)
    (hrow : b.failuresInARow h = 0) : Remembers b h :=
  of_closed hc (by rw [hzero, hrow]) (by rw [hzero]; exact hfailure)

theorem reset (h : History) (now : Rat) : Remembers b (h ++ [(now, .reset)]) :=
  of_cleared hfailure (by simp [after, Breaker.reset, new]) (by simp [after, Breaker.reset, new])
    (by simp [Use.clears])

theorem after_closed (hr : Remembers b h) (hc : (b.run h).circuit = .closed) (now : Rat) (u : Use) :
    Remembers b (h ++ [(now, u)]) := by
  obtain ⟨hcount, hlt⟩ := hr.closed hc
  have hrun : b.run (h ++ [(now, u)]) = _ :=
    (run_append_singleton b h _).trans (after_of_closed hc now u)
  cases u with
  | check =>
    refine of_closed (by rw [hrun]; exact hc) ?_ (by rw [hrun]; exact hlt)
    simp [hrun, hcount, Use.clears, Use.counted]
  | success =>
    exact of_cleared hfailure (by rw [hrun]; exact hc) (by rw [hrun]) (by simp [Use.clears])
  | failure kind =>
    simp only [counts_run, policy_run] at hrun
    cases hk : b.counts kind with
    | false =>
      rw [if_neg (by simp [hk])] at hrun
      refine of_closed (by rw [hrun]; exact hc) ?_ (by rw [hrun]; exact hlt)
      simp [hrun, hcount, Use.clears, Use.counted, hk]
    | true =>
      rw [if_pos hk] at hrun
      -- a failure that counts is the one too many, or one more in the row
      by_cases hmany : b.policy.failureThreshold ≤ ((b.run h).failures + 1 : Nat)
      · rw [if_pos hmany] at hrun
        exact of_opened (.enters (by simp [hc]) (by rw [hrun])) (by rw [hrun])
      · rw [if_neg hmany] at hrun
        refine of_closed (by rw [hrun]) ?_ (by rw [hrun]; exact Int.not_le.1 hmany)
        simp [hrun, hcount, Use.clears, Use.counted, hk]
  | reset => exact reset hfailure h now

include hsuccess in
theorem after_opened (hr : Remembers b h) (hc : (b.run h).circuit = .opened) (now : Rat) (u : Use) :
    Remembers b (h ++ [(now, u)]) := by
  obtain ⟨t, v, later, hs, hlast⟩ := hr.opened hc
  have hrun : b.run (h ++ [(now, u)]) = _ :=
    (run_append_singleton b h _).trans (after_of_opened hc now u)
  -- until it is asked after its cool-down, the use that opened it stays the same
  have hstays (hsame : b.run (h ++ [(now, u)]) = b.run h) : Remembers b (h ++ [(now, u)]) :=
    of_opened (hs.stays (by rw [hsame]; exact hc)) (by rw [hsame]; exact hlast)
  cases u with
  | check =>
    by_cases hleft : 0 < (b.run h).untilProbe now
    · exact hstays (by rw [hrun]; exact if_pos hleft)
    · simp only [if_neg hleft] at hrun
      refine of_halfOpen (.enters (by simp [hc]) (by rw [hrun])) (by rw [hrun]; rfl) nofun ?_
      rw [hrun]
      exact hsuccess
  | success => exact hstays hrun
  | failure kind => exact hstays hrun
  | reset => exact reset hfailure h now

theorem after_halfOpen (hr : Remembers b h) (hc : (b.run h).circuit = .halfOpen) (now : Rat)
    (u : Use) : Remembers b (h ++ [(now, u)]) := by
  obtain ⟨e, later, hs, hcount, hnone, hlt⟩ := hr.halfOpen hc
  have hrun : b.run (h ++ [(now, u)]) = _ :=
    (run_append_singleton b h _).trans (after_of_halfOpen hc now u)
  have hstays (hcirc : (b.run (h ++ [(now, u)])).circuit = .halfOpen) :
      b.Since .halfOpen (h ++ [(now, u)]) e (later ++ [(now, u)]) := hs.stays hcirc
  have hnone' (hu : u.counted b = false) : ∀ e' ∈ later ++ [(now, u)], e'.2.counted b = false := by
    intro e' he'
    rcases List.mem_append.1 he' with he' | he'
    · exact hnone e' he'
    · obtain rfl := List.mem_singleton.1 he'
      exact hu
  cases u with
  | check =>
    refine of_halfOpen (hstays (by rw [hrun]; exact hc)) ?_ (hnone' rfl) (by rw [hrun]; exact hlt)
    simp [hrun, hcount]
  | success =>
    simp only [policy_run] at hrun
    by_cases hmany : b.policy.successThreshold ≤ ((b.run h).successes + 1 : Nat)
    · rw [if_pos hmany] at hrun
      exact of_cleared hfailure (by rw [hrun]) (by rw [hrun]) (by simp [Use.clears])
    · rw [if_neg hmany] at hrun
      refine of_halfOpen (hstays (by rw [hrun]; exact hc)) ?_ (hnone' rfl)
        (by rw [hrun]; exact Int.not_le.1 hmany)
      simp [hrun, hcount]
  | failure kind =>
    simp only [counts_run] at hrun
    cases hk : b.counts kind with
    | false =>
      rw [if_neg (by simp [hk])] at hrun
      refine of_halfOpen (hstays (by rw [hrun]; exact hc)) ?_ (hnone' hk) (by rw [hrun]; exact hlt)
      simp [hrun, hcount]
    | true =>
      -- it opens anew, whatever successes there were
      rw [if_pos hk] at hrun
      exact of_opened (.enters (by simp [hc]) (by rw [hrun])) (by rw [hrun])
  | reset => exact reset hfailure h now

include hsuccess in
theorem of_history (hclosed : b.circuit = .closed) (hzero : b.failures = 0) (h : History) :
    Remembers b h := by
  -- a history is read from its end, so the induction takes away the last use
  induction h using List.reverseRecOn with
  | nil => exact of_cleared hfailure hclosed hzero rfl
  | append_singleton h e ih =>
    cases hc : (b.run h).circuit with
    | closed => exact ih.after_closed hfailure hc e.1 e.2
    | opened => exact ih.after_opened hfailure hsuccess hc e.1 e.2
    | halfOpen => exact ih.after_halfOpen hfailure hc e.1 e.2

end Remembers

/-! ## The next use -/

/-- The circuit is half open, and since it is it has taken all but one of the successes that close
it, and no failure that counts. -/
def OneProbeLeft (b : Breaker) (h : History) : Prop :=
  ∃ e later, b.Since .halfOpen h e later ∧ (∀ e' ∈ later, e'.2.counted b = false) ∧
    (successesIn later + 1 : Int) = b.policy.successThreshold

theorem OneProbeLeft.circuit (hl : b.OneProbeLeft h) : (b.run h).circuit = .halfOpen := by
  obtain ⟨_, _, hs, -⟩ := hl
  exact hs.circuit

/-- A breaker does at a use what its history says. -/
structure FollowsHistory (b : Breaker) (h : History) (now : Rat) (u : Use) : Prop where
  /-- It opens exactly at a failure that counts: at the one too many in a row while it is closed,
  and at any while it is half open. -/
  opens : (b.run h).circuit ≠ .opened ∧ (b.run (h ++ [(now, u)])).circuit = .opened ↔
    u.counted b = true ∧
      ((b.run h).circuit = .closed ∧ (b.failuresInARow h + 1 : Int) = b.policy.failureThreshold ∨
        (b.run h).circuit = .halfOpen)
  /-- Open since a time, it refuses until its cool-down is over, and says how long that will be. -/
  refuses : ∀ t v later, b.Since .opened h (t, v) later → now < t + b.policy.timeout →
    (b.run h).check now = (b.run h, .error ⟨b.service, t + b.policy.timeout - now⟩) ∧
      0 < t + b.policy.timeout - now ∧ t + b.policy.timeout - now ≤ b.policy.timeout
  /-- The first call from then on goes through, and finds it half open. -/
  probes : ∀ t v later, b.Since .opened h (t, v) later → t + b.policy.timeout ≤ now →
    ((b.run h).check now).2 = .ok () ∧ ((b.run h).check now).1.circuit = .halfOpen
  /-- Nothing else makes it half open. -/
  halfOpens : (b.run h).circuit ≠ .halfOpen → (b.run (h ++ [(now, u)])).circuit = .halfOpen →
    (b.run h).circuit = .opened ∧ u = .check
  /-- While it is open, no outcome matters. -/
  rests : (b.run h).circuit = .opened → u ≠ .check → u ≠ .reset →
    b.run (h ++ [(now, u)]) = b.run h
  /-- It closes when it is reset, or at the last success that it takes. -/
  closes : (b.run h).circuit ≠ .closed ∧ (b.run (h ++ [(now, u)])).circuit = .closed ↔
    (b.run h).circuit ≠ .closed ∧ u = .reset ∨ u = .success ∧ b.OneProbeLeft h
  /-- A breaker that is not open lets every call through. -/
  passes : (b.run h).circuit ≠ .opened → (b.run h).check now = (b.run h, .ok ())
  /-- Unless it is closed, there is a use that made it what it is. -/
  since : (b.run h).circuit ≠ .closed → ∃ e later, b.Since (b.run h).circuit h e later
  /-- A closed breaker has counted the failures in a row, and they are not too many. -/
  closed : (b.run h).circuit = .closed →
    (b.run h).failures = b.failuresInARow h ∧
      ((b.run h).failures : Int) < b.policy.failureThreshold
  /-- A half-open breaker has counted its successes, and they are not enough. -/
  halfOpen : ∀ e later, b.Since .halfOpen h e later →
    (b.run h).successes = successesIn later ∧
      ((b.run h).successes : Int) < b.policy.successThreshold

namespace Remembers

theorem opens_iff (hr : Remembers b h) (now : Rat) (u : Use) :
    (b.run h).circuit ≠ .opened ∧ (b.run (h ++ [(now, u)])).circuit = .opened ↔
      u.counted b = true ∧
        ((b.run h).circuit = .closed ∧
            (b.failuresInARow h + 1 : Int) = b.policy.failureThreshold ∨
          (b.run h).circuit = .halfOpen) := by
  rw [run_append_singleton]
  cases hc : (b.run h).circuit with
  | closed =>
    obtain ⟨hcount, hlt⟩ := hr.closed hc
    rw [after_of_closed hc]
    cases u with
    | failure kind =>
      simp only [counts_run, policy_run, Use.counted]
      cases hk : b.counts kind with
      | false => simp [hc]
      | true =>
        rw [← hcount]
        simp only [if_true]
        split <;> simp <;> omega
    | check | success | reset => simp [hc, Use.counted, Breaker.reset, new]
  | opened => simp
  | halfOpen =>
    rw [after_of_halfOpen hc]
    cases u with
    | failure kind =>
      simp only [counts_run, Use.counted]
      cases hk : b.counts kind <;> simp [hc]
    | success => simp only; split <;> simp [hc, Use.counted]
    | check | reset => simp [hc, Use.counted, Breaker.reset, new]

theorem oneProbeLeft_iff (hr : Remembers b h) (hc : (b.run h).circuit = .halfOpen) :
    b.OneProbeLeft h ↔ b.policy.successThreshold ≤ ((b.run h).successes + 1 : Nat) := by
  obtain ⟨e, later, hs, hcount, hnone, hlt⟩ := hr.halfOpen hc
  rw [hcount] at hlt ⊢
  constructor
  · rintro ⟨_, _, hs', -, heq⟩
    obtain ⟨-, rfl⟩ := hs.unique hs'
    omega
  · exact fun hle => ⟨e, later, hs, hnone, by omega⟩

theorem closes_iff (hr : Remembers b h) (now : Rat) (u : Use) :
    (b.run h).circuit ≠ .closed ∧ (b.run (h ++ [(now, u)])).circuit = .closed ↔
      (b.run h).circuit ≠ .closed ∧ u = .reset ∨ u = .success ∧ b.OneProbeLeft h := by
  rw [run_append_singleton]
  cases hc : (b.run h).circuit with
  | closed =>
    have hnot : ¬ b.OneProbeLeft h := fun hl => nomatch hc.symm.trans hl.circuit
    simp [hnot]
  | opened =>
    have hnot : ¬ b.OneProbeLeft h := fun hl => nomatch hc.symm.trans hl.circuit
    rw [after_of_opened hc]
    cases u with
    | check => simp only; split <;> simp [hc]
    | success | failure _ | reset => simp [hc, hnot, Breaker.reset, new]
  | halfOpen =>
    rw [after_of_halfOpen hc, hr.oneProbeLeft_iff hc]
    cases u with
    | success => simp only [policy_run]; split <;> simp_all
    | failure kind => simp only; split <;> simp [hc]
    | check | reset => simp [hc, Breaker.reset, new]

theorem untilProbe (hr : Remembers b h) {t : Rat} {v : Use} {later : History}
    (hs : b.Since .opened h (t, v) later) (now : Rat) :
    (b.run h).untilProbe now = t + b.policy.timeout - now := by
  obtain ⟨t', v', later', hs', hlast⟩ := hr.opened hs.circuit
  obtain ⟨rfl, rfl⟩ := Prod.mk.inj (hs.unique hs').1
  simp only [Breaker.untilProbe, hlast, policy_run, Option.getD_some]
  grind

theorem refuses (hr : Remembers b h) {t : Rat} {v : Use} {later : History}
    (hs : b.Since .opened h (t, v) later) (hbefore : t ≤ now)
    (hnow : now < t + b.policy.timeout) :
    (b.run h).check now = (b.run h, .error ⟨b.service, t + b.policy.timeout - now⟩) ∧
      0 < t + b.policy.timeout - now ∧ t + b.policy.timeout - now ≤ b.policy.timeout := by
  have hpos : 0 < t + b.policy.timeout - now := by grind
  refine ⟨?_, hpos, by grind⟩
  rw [check_of_opened hs.circuit, hr.untilProbe hs, if_pos hpos, service_run]

theorem probes (hr : Remembers b h) {t : Rat} {v : Use} {later : History}
    (hs : b.Since .opened h (t, v) later) (hnow : t + b.policy.timeout ≤ now) :
    ((b.run h).check now).2 = .ok () ∧ ((b.run h).check now).1.circuit = .halfOpen := by
  have hover : ¬ 0 < t + b.policy.timeout - now := by grind
  rw [check_of_opened hs.circuit, hr.untilProbe hs, if_neg hover]
  exact ⟨rfl, rfl⟩

end Remembers

theorem halfOpens (hc : (b.run h).circuit ≠ .halfOpen)
    (hafter : (b.run (h ++ [(now, u)])).circuit = .halfOpen) :
    (b.run h).circuit = .opened ∧ u = .check := by
  rw [run_append_singleton] at hafter
  cases hcirc : (b.run h).circuit with
  | closed =>
    rw [after_of_closed hcirc] at hafter
    cases u with
    | failure kind =>
      simp only at hafter
      split at hafter
      · split at hafter <;> cases hafter
      · exact absurd hafter hc
    | check | success => exact absurd hafter hc
    | reset => cases hafter
  | opened =>
    refine ⟨rfl, ?_⟩
    rw [after_of_opened hcirc] at hafter
    cases u with
    | check => rfl
    | success | failure _ => exact absurd hafter hc
    | reset => cases hafter
  | halfOpen => exact absurd hcirc hc

/-- At every use, a breaker does what its history says. -/
theorem follows_history (service : String) {p : BreakerPolicy} (hfailure : 1 ≤ p.failureThreshold)
    (hsuccess : 1 ≤ p.successThreshold) {h : History} {now : Rat} {u : Use}
    (hchron : History.Chronological (h ++ [(now, u)])) :
    (new service p).FollowsHistory h now u := by
  have hr : Remembers (new service p) h := .of_history hfailure hsuccess rfl rfl h
  refine
    { opens := hr.opens_iff now u
      refuses := ?_
      probes := fun t v later hs hnow => hr.probes hs hnow
      halfOpens := halfOpens
      rests := ?_
      closes := hr.closes_iff now u
      passes := fun hc => check_of_ne hc now
      since := ?_
      closed := hr.closed
      halfOpen := ?_ }
  · intro t v later hs hnow
    -- the breaker opened no later than now, so that it says no more than its timeout
    have hbefore : t ≤ now :=
      (List.pairwise_append.1 hchron).2.2 _ hs.mem _ (List.mem_singleton_self (now, u))
    exact hr.refuses hs hbefore hnow
  · intro hc hcheck hreset
    rw [run_append_singleton, after_of_opened hc]
    cases u with
    | success | failure _ => rfl
    | check => exact absurd rfl hcheck
    | reset => exact absurd rfl hreset
  · intro hne
    cases hc : ((new service p).run h).circuit with
    | closed => exact absurd hc hne
    | opened =>
      obtain ⟨t, v, later, hs, -⟩ := hr.opened hc
      exact ⟨_, _, hs⟩
    | halfOpen =>
      obtain ⟨e, later, hs, -⟩ := hr.halfOpen hc
      exact ⟨_, _, hs⟩
  · intro e later hs
    obtain ⟨e', later', hs', hcount, -, hlt⟩ := hr.halfOpen hs.circuit
    obtain ⟨rfl, rfl⟩ := hs.unique hs'
    exact ⟨hcount, hlt⟩

/-- A policy under which faults of the value do not count. -/
def lenient : BreakerPolicy :=
  { failureThreshold := 2, timeout := 10, excluded := [.value] }

/-- A breaker opens at the second failure that counts, is asked again when its cool-down is over,
and takes a success. -/
def probed : History :=
  [(0, .failure .connection), (1, .failure .value), (2, .failure .runtime), (5, .success),
    (12, .check), (13, .success)]

/-- A failure after the first probe opens it anew, for the whole cool-down. -/
theorem reopened_breaker_refuses :
    1 ≤ lenient.failureThreshold ∧ 1 ≤ lenient.successThreshold ∧
      History.Chronological ((probed ++ [(14, .failure .timedOut)]) ++ [(20, .check)]) ∧
      let b := (new "store" lenient).run (probed ++ [(14, .failure .timedOut)])
      b.check 20 = (b, .error ⟨"store", 4⟩) := by
  have hfailure : 1 ≤ lenient.failureThreshold := by decide
  have hsuccess : 1 ≤ lenient.successThreshold := by decide
  have hchron :
      History.Chronological ((probed ++ [(14, .failure .timedOut)]) ++ [(20, .check)]) := by
    decide +kernel
  refine ⟨hfailure, hsuccess, hchron, ?_⟩
  have hfollows := follows_history "store" hfailure hsuccess hchron
  have hsince : (new "store" lenient).Since .opened (probed ++ [(14, .failure .timedOut)])
      (14, .failure .timedOut) [] :=
    .enters (by decide +kernel) (by decide +kernel)
  have hrefused := (hfollows.refuses 14 _ [] hsince (by decide +kernel)).1
  have hleft : (14 : Rat) + lenient.timeout - 20 = 4 := by decide +kernel
  exact hrefused.trans (by rw [← hleft]; rfl)

end DeferredSave.Breaker
