import DeferredSave.Proofs.Course.Timers
import DeferredSave.Proofs.Session.Pending

/-!
# Expiries in a session

An expiry waits for its turn among other jobs, and meanwhile its timer may be stopped or armed
again. It is handled only if neither has happened, and then its timer is due
(`Session.Timed.timely`).
-/

namespace DeferredSave.Session

variable {s s' : Session}

def timer (s : Session) : TimerName → Timer
  | .quiet => s.engine.quiet
  | .shown => s.engine.shown

/-- What an expiry that waits is about is due, unless its timer was stopped or armed again since. -/
structure Timed (s : Session) : Prop where
  numbered : ∀ name a, (s.timer name).pending = some a → a.number ≤ (s.timer name).armings
  due : ∀ name number, s.Expires name number → number ≤ (s.timer name).armings ∧
    ∀ a, (s.timer name).pending = some a → a.number = number → a.due ≤ s.now

/-- An expiry that is handled comes no earlier than its timer is due. -/
def Timely (s : Session) : Job → Prop
  | .expiry name number =>
    ∀ t, (s.timer name).expire? number = some t → ((s.timer name).due? s.now).isSome
  | _ => True

theorem Timed.timely {j : Job} (h : s.Timed) (hj : .job j ∈ s.items) : s.Timely j := by
  cases j with
  | expiry name number =>
    intro t hexpire
    unfold Timer.expire? at hexpire
    split at hexpire
    · rename_i hany
      obtain ⟨a, ha, hnumber⟩ := (Option.any_eq_true _ _).1 hany
      have hle : a.due ≤ s.now := (h.due name number hj).2 a ha (of_decide_eq_true hnumber)
      exact Option.isSome_iff_exists.2 ⟨a, Timer.due?_eq_some_iff.2 ⟨ha, hle⟩⟩
    · cases hexpire
  | step | begin | takeOff | released | answer | notify | wake | startUp | shutDown => trivial

theorem timer_later (h : s.engine.Later s'.engine) (name : TimerName) :
    (s.timer name).Later (s'.timer name) := by
  cases name with
  | quiet => exact h.quiet
  | shown => exact h.shown

/-- An arming that is new has a number that no expiry has. -/
theorem Timed.later (h : s.Timed) (hlater : s.engine.Later s'.engine)
    (hexpires : ∀ name number, s'.Expires name number → s.Expires name number) : s'.Timed where
  numbered := by
    intro name a ha
    have htimer := timer_later hlater name
    obtain hold | ⟨-, hle⟩ := htimer.pending a ha
    · exact Nat.le_trans (h.numbered name a hold) htimer.armings
    · exact hle
  due := by
    intro name number hnumber
    have htimer := timer_later hlater name
    obtain ⟨hle, hdue⟩ := h.due name number (hexpires name number hnumber)
    refine ⟨Nat.le_trans hle htimer.armings, ?_⟩
    rintro a ha rfl
    -- an arming with the number of an expiry that waits is one from before
    obtain hold | ⟨hnew, -⟩ := htimer.pending a ha
    · exact Rat.le_trans (hdue a hold rfl) hlater.now
    · exact absurd hnew (Nat.not_lt.2 hle)

theorem Timed.of_gains {errands : List Errand} (h : s.Timed) (hgains : Gains errands s s') :
    s'.Timed :=
  h.later (.of_eq hgains.engine) hgains.expires

/-! ## Rounds -/

theorem mem_dueJobs {j : Job} (h : j ∈ s.dueJobs) :
    ∃ name a, (s.timer name).due? s.now = some a ∧ j = .expiry name a.number := by
  unfold dueJobs at h
  obtain ⟨⟨due, _⟩, hmem, rfl⟩ := List.mem_map.1 h
  rw [List.mem_mergeSort] at hmem
  obtain hmem | hmem := List.mem_append.1 hmem <;> rw [Option.mem_toList] at hmem <;>
    obtain ⟨a, ha, heq⟩ := Option.map_eq_some_iff.1 hmem <;> cases heq
  · exact ⟨.quiet, a, ha, rfl⟩
  · exact ⟨.shown, a, ha, rfl⟩

/-- The session with all that is ready as its next round. -/
def nextRound (s : Session) : Session := { s with round := s.queue ++ s.dueJobs, queue := [] }

/-- A new round begins with what was queued, and with expiries. -/
theorem items_next (h : s.round = []) :
    s.nextRound.items.Perm (s.dueJobs.map .job ++ s.items) := by
  unfold nextRound items
  rw [h, List.nil_append, List.append_nil, List.map_append, ← List.append_assoc]
  exact List.perm_append_comm.append_right _

/-- The first job of the round is one of all. -/
theorem items_round {j : Job} {rest : List Job} (h : s.round = j :: rest) :
    s.items = .job j :: ({ s with round := rest } : Session).items := by
  unfold items
  rw [h]
  rfl

theorem Timed.next (h : s.Timed) (hround : s.round = []) : s.nextRound.Timed where
  numbered := h.numbered
  due := by
    intro name number hexpires
    -- an expiry that comes with the round is due now, and one from before was due already
    obtain hmem | hmem := List.mem_append.1 ((items_next hround).subset hexpires)
    · obtain ⟨j, hj, heq⟩ := List.mem_map.1 hmem
      obtain ⟨name, a, hdue, rfl⟩ := mem_dueJobs hj
      cases heq
      obtain ⟨hpending, hle⟩ := Timer.due?_eq_some_iff.1 hdue
      refine ⟨h.numbered name a hpending, fun a' ha' _ => ?_⟩
      cases hpending.symm.trans ha'
      exact hle
    · exact h.due name number hmem

theorem Timed.timely_head {j : Job} {rest : List Job} (h : s.Timed) (hround : s.round = j :: rest) :
    s.Timely j :=
  h.timely (items_round hround ▸ List.mem_cons_self)

theorem Timed.turn {j : Job} {rest : List Job} (h : s.Timed) (hround : s.round = j :: rest) :
    ({ s with round := rest } : Session).Timed :=
  h.later (.refl _) fun _ _ hexpires => by
    unfold Expires
    rw [items_round hround]
    exact List.mem_cons_of_mem _ hexpires

end DeferredSave.Session
