import DeferredSave.Timer.Alarm
import Mathlib.Algebra.Order.Ring.Rat
import Mathlib.Data.List.Basic
import Mathlib.Data.NNRat.Defs
import Mathlib.Tactic.Linarith

/-!
# When a timer fires

The history of a timer says which commands were carried out when, and when it fired. An arming is
left alone if its turn ends with it and no later turn has a command before its delay is over. A
timer fires at the ends of the delays of just these armings (`Alarm.fires_when_left_alone`), for it
never has more than one call to be made by the clock, and that is the call of the arming that
happened last.
-/

namespace DeferredSave.Alarm

/-! ## Histories -/

/-- Commands that are carried out in one go. -/
structure Turn where
  time : Rat
  /-- Whether the timer fired, and the commands are what was done then. -/
  fired : Bool
  commands : List TimerCommand
deriving DecidableEq, Repr

/-- The turn ends with an arming. -/
def Turn.Arms (t : Turn) : Prop := t.commands.getLast? = some .arm

instance (t : Turn) : Decidable t.Arms := inferInstanceAs (Decidable (_ = _))

/-- When an arming of the turn is over. A delay below zero is over at once. -/
def Turn.due (delay : Rat) (t : Turn) : Rat := t.time + max delay 0

/-- The times at which a timer has to fire until the time `limit`: those of the armings that are
left alone. What a later turn commands at such a time comes after the firing. -/
def dueTimes (delay limit : Rat) : List Turn → List Rat
  | [] => []
  | turn :: later =>
    if turn.Arms ∧ turn.due delay ≤ limit ∧
        ∀ t ∈ later, t.time < turn.due delay → t.commands = [] then
      turn.due delay :: dueTimes delay limit later
    else dueTimes delay limit later

/-- The last thing that happened to the timer was an arming. -/
def Stands (history : List Turn) : Prop :=
  ∃ before turn after, history = before ++ turn :: after ∧ turn.Arms ∧
    ∀ t ∈ after, t.fired = false ∧ t.commands = []

/-- The moments in the life of a timer, each with the history that led to it. Turns come from
outside, when no call is due, or with an expiry; what is done in them is arbitrary. The clock stands
still in a turn, and otherwise passes over no call. -/
inductive Moment (delay : Rat) : List Turn → Alarm → Prop where
  | start (replies : List (List TimerCommand)) : Moment delay [] { timer := { delay }, replies }
  | outside {history : List Turn} {a : Alarm} :
      Moment delay history a → a.next? a.now = none →
      Moment delay (history ++ [⟨a.now, false, []⟩]) a
  | rings {history : List Turn} {a : Alarm} {limit : Rat} {arming : Arming}
      (replies : List (List TimerCommand)) :
      Moment delay history a → a.next? limit = some arming →
      Moment delay (history ++ [⟨(a.ring arming).now, true, []⟩]) { a.ring arming with replies }
  | obeys {history : List Turn} {fired : Bool} {commands : List TimerCommand} {a : Alarm}
      (c : TimerCommand) :
      Moment delay (history ++ [⟨a.now, fired, commands⟩]) a →
      Moment delay (history ++ [⟨a.now, fired, commands ++ [c]⟩]) (a.obey c)
  | waits {history : List Turn} {a : Alarm} {time : Rat} :
      Moment delay history a → a.now ≤ time → a.next? time = none →
      Moment delay history { a with now := time }

/-! ## Due times -/

section

variable {delay limit : Rat} {history : List Turn} {turn : Turn}

theorem dueTimes_append_of_idle (h : turn.commands = []) :
    dueTimes delay limit (history ++ [turn]) = dueTimes delay limit history := by
  induction history with
  | nil => simp [dueTimes, Turn.Arms, h]
  | cons first rest ih =>
    simp only [List.cons_append, dueTimes, ih, List.forall_mem_append, List.forall_mem_singleton, h,
      implies_true, and_true]

/-- A turn with commands ends the armings from before that are not over yet. -/
theorem dueTimes_append_of_busy (h : turn.commands ≠ []) (hle : turn.time ≤ limit) :
    dueTimes delay limit (history ++ [turn]) =
      dueTimes delay turn.time history ++
        if turn.Arms ∧ turn.due delay ≤ limit then [turn.due delay] else [] := by
  induction history with
  | nil => simp [dueTimes]
  | cons first rest ih =>
    have halone : (first.due delay ≤ limit ∧
          ∀ t ∈ rest ++ [turn], t.time < first.due delay → t.commands = []) ↔
        first.due delay ≤ turn.time ∧ ∀ t ∈ rest, t.time < first.due delay → t.commands = [] := by
      simp only [List.forall_mem_append, List.forall_mem_singleton, h, imp_false, not_lt]
      exact ⟨fun ⟨_, hrest, hturn⟩ => ⟨hturn, hrest⟩,
        fun ⟨hturn, hrest⟩ => ⟨hturn.trans hle, hrest, hturn⟩⟩
    simp only [List.cons_append, dueTimes, ih, halone]
    split
    · rfl
    · rfl

theorem dueTimes_append_of_arms (hlast : turn.commands.getLast? = some .arm)
    (hle : turn.time ≤ limit) :
    dueTimes delay limit (history ++ [turn]) =
      dueTimes delay turn.time history ++
        if turn.due delay ≤ limit then [turn.due delay] else [] := by
  have hbusy : turn.commands ≠ [] := by rintro h; simp [h] at hlast
  rw [dueTimes_append_of_busy hbusy hle]
  simp only [Turn.Arms, hlast, true_and]

theorem dueTimes_append_of_cancels (hlast : turn.commands.getLast? = some .cancel)
    (hle : turn.time ≤ limit) :
    dueTimes delay limit (history ++ [turn]) = dueTimes delay turn.time history := by
  have hbusy : turn.commands ≠ [] := by rintro h; simp [h] at hlast
  rw [dueTimes_append_of_busy hbusy hle]
  simp [Turn.Arms, hlast]

/-! ## What happened last -/

theorem not_stands_nil : ¬ Stands [] := by
  rintro ⟨before, turn, after, h, -⟩
  simp at h

/-- Where the last turn stands in a history that is split at a turn. -/
theorem split_append_singleton {before after : List Turn} {armed : Turn}
    (h : history ++ [turn] = before ++ armed :: after) :
    (armed = turn ∧ after = []) ∨
      ∃ rest, after = rest ++ [turn] ∧ history = before ++ armed :: rest := by
  obtain rfl | ⟨rest, last, rfl⟩ := List.eq_nil_or_concat' after
  · obtain ⟨-, hlast⟩ := List.append_inj' h rfl
    exact .inl ⟨(List.singleton_inj.1 hlast).symm, rfl⟩
  · rw [← List.cons_append, ← List.append_assoc] at h
    obtain ⟨hbefore, hlast⟩ := List.append_inj' h rfl
    exact .inr ⟨rest, by rw [List.singleton_inj.1 hlast], hbefore⟩

theorem stands_append_of_idle (hfired : turn.fired = false) (h : turn.commands = []) :
    Stands (history ++ [turn]) ↔ Stands history := by
  constructor
  · rintro ⟨before, armed, after, hsplit, harms, hafter⟩
    obtain ⟨rfl, -⟩ | ⟨rest, rfl, hhistory⟩ := split_append_singleton hsplit
    · -- a turn without commands is no arming
      simp [Turn.Arms, h] at harms
    · exact ⟨before, armed, rest, hhistory, harms, fun t ht => hafter t (List.mem_append_left _ ht)⟩
  · rintro ⟨before, armed, after, rfl, harms, hafter⟩
    refine ⟨before, armed, after ++ [turn], by simp, harms, ?_⟩
    simp only [List.forall_mem_append, List.forall_mem_singleton]
    exact ⟨hafter, hfired, h⟩

/-- A turn in which something happens to the timer decides. -/
theorem stands_append_of_busy (h : turn.fired = true ∨ turn.commands ≠ []) :
    Stands (history ++ [turn]) ↔ turn.Arms := by
  constructor
  · rintro ⟨before, armed, after, hsplit, harms, hafter⟩
    obtain ⟨rfl, -⟩ | ⟨rest, rfl, -⟩ := split_append_singleton hsplit
    · exact harms
    · obtain ⟨hfired, hcommands⟩ := hafter turn (by simp)
      simp [hfired, hcommands] at h
  · intro harms
    exact ⟨history, turn, [], rfl, harms, nofun⟩

end

/-! ## The call of the present arming -/

/-- The timer has one call to be made if it is armed, and none otherwise. -/
def Tidy (a : Alarm) : Prop := a.live = a.timer.pending.toList

section

variable {a : Alarm} {limit : Rat} {arming : Arming}

theorem Tidy.next? (h : a.Tidy) (limit : Rat) : a.next? limit = a.timer.due? limit := by
  rw [Alarm.next?, h]
  cases hpending : a.timer.pending with
  | none => simp [Timer.due?, hpending]
  | some arming => simp [Timer.due?, hpending]

theorem Tidy.of_next? (h : a.Tidy) (hnext : a.next? limit = some arming) :
    a.timer.pending = some arming ∧ arming.due ≤ limit :=
  Timer.due?_eq_some_iff.1 ((h.next? limit).symm.trans hnext)

theorem Tidy.lt_due (h : a.Tidy) (hnext : a.next? limit = none)
    (hpending : a.timer.pending = some arming) : limit < arming.due := by
  by_contra hle
  rw [h.next?, Timer.due?_eq_some_iff.2 ⟨hpending, not_lt.1 hle⟩] at hnext
  cases hnext

theorem Tidy.next?_of_le (h : a.Tidy) {earlier : Rat} (hle : earlier ≤ limit)
    (hnext : a.next? limit = none) : a.next? earlier = none := by
  cases hearlier : a.next? earlier with
  | none => rfl
  | some arming =>
    obtain ⟨hpending, hdue⟩ := h.of_next? hearlier
    exact absurd (hdue.trans hle) (not_le.2 (h.lt_due hnext hpending))

theorem cancel_timer (a : Alarm) : a.cancel.timer = a.timer.cancel := by
  unfold cancel
  split
  · next h => simp [Timer.cancel, ← h]
  · rfl

theorem cancel_now (a : Alarm) : a.cancel.now = a.now := by
  unfold cancel
  split <;> rfl

theorem cancel_firings (a : Alarm) : a.cancel.firings = a.firings := by
  unfold cancel
  split <;> rfl

/-- Only the call of the present arming is to be made, and that is taken back. -/
theorem Tidy.live_cancel (h : a.Tidy) : a.cancel.live = [] := by
  unfold Tidy at h
  unfold cancel
  split
  · next hpending => rw [h, hpending, Option.toList_none]
  · next arming hpending =>
    rw [hpending, Option.toList_some] at h
    simp only [live, List.map_eq_nil_iff, List.filter_eq_nil_iff, List.mem_map]
    rintro _ ⟨c, hc, rfl⟩
    simp only [Bool.not_eq_true', Bool.or_eq_false_iff, decide_eq_false_iff_not, not_and, not_not]
    intro hlive
    have hmem : c.arming ∈ a.live := List.mem_map_of_mem (List.mem_filter.2 ⟨hc, by simp [hlive]⟩)
    rw [h] at hmem
    exact List.mem_singleton.1 hmem

theorem Tidy.cancel (h : a.Tidy) : a.cancel.Tidy := by
  rw [Tidy, h.live_cancel, cancel_timer]
  rfl

theorem Tidy.arm (h : a.Tidy) : a.arm.Tidy := by
  have hlive := h.live_cancel
  simp only [Tidy, Alarm.arm, live, Timer.arm, List.filter_append, List.map_append] at hlive ⊢
  simp [hlive]

theorem Tidy.obey (h : a.Tidy) (c : TimerCommand) : (a.obey c).Tidy := by
  cases c with
  | arm => exact h.arm
  | cancel => exact h.cancel

theorem Tidy.ring (h : a.Tidy) (hpending : a.timer.pending = some arming) :
    (a.ring arming).Tidy := by
  rw [Tidy, hpending, Option.toList_some, live] at h
  have hlive : (a.live.filter (· ≠ arming)) = [] := by simp [live, h]
  simpa [Tidy, Alarm.ring, Timer.cancel, live, List.filter_map, List.filter_filter,
    Function.comp_def, Bool.and_comm] using hlive

theorem obey_now (a : Alarm) (c : TimerCommand) : (a.obey c).now = a.now := by
  cases c with
  | arm => exact a.cancel_now
  | cancel => exact a.cancel_now

theorem obey_firings (a : Alarm) (c : TimerCommand) : (a.obey c).firings = a.firings := by
  cases c with
  | arm => exact a.cancel_firings
  | cancel => exact a.cancel_firings

theorem arm_timer (a : Alarm) : a.arm.timer = a.timer.cancel.arm a.now := by
  simp only [Alarm.arm, cancel_timer, cancel_now]

theorem obey_delay (a : Alarm) (c : TimerCommand) :
    (a.obey c).timer.delay = a.timer.delay := by
  cases c with
  | arm =>
    change a.arm.timer.delay = a.timer.delay
    rw [arm_timer]
    rfl
  | cancel =>
    change a.cancel.timer.delay = a.timer.delay
    rw [cancel_timer]
    rfl

theorem ring_now (a : Alarm) (arming : Arming) : (a.ring arming).now = max a.now arming.due := by
  simp only [ring, max_def]
  split
  · next h => rw [if_pos h.le]
  · next h =>
    split
    · next hle => exact le_antisymm hle (not_lt.1 h)
    · rfl

end

/-! ## Moments -/

/-- What an alarm has to do with its history at every moment. -/
structure Follows (delay : Rat) (history : List Turn) (a : Alarm) : Prop where
  delay_eq : a.timer.delay = delay
  tidy : a.Tidy
  time_le : ∀ t ∈ history, t.time ≤ a.now
  armed : a.timer.armed = true ↔ Stands history
  disarmed : ∀ f ∈ a.firings, f.armed = false
  /-- The timer has fired when it had to, and it will for the arming it waits for. -/
  fired : ∀ limit, a.now ≤ limit →
    dueTimes delay limit history =
      a.firings.map (·.time) ++ (a.timer.due? limit).toList.map (max a.now ·.due)
  /-- When the present turn began nothing was due. -/
  settled : ∀ earlier turn, history = earlier ++ [turn] → turn.time = a.now →
    dueTimes delay a.now earlier = a.firings.map (·.time)

section

variable {delay : Rat} {history : List Turn} {a : Alarm}

theorem Follows.start (delay : Rat) (replies : List (List TimerCommand)) :
    Follows delay [] { timer := { delay }, replies } where
  delay_eq := rfl
  tidy := rfl
  time_le := nofun
  armed := by simp [Timer.armed, not_stands_nil]
  disarmed := nofun
  fired _ _ := rfl
  settled := by
    intro earlier turn h
    simp at h

/-- If nothing is due, the timer has fired just when it had to. -/
theorem Follows.fired_now (h : Follows delay history a) (hnext : a.next? a.now = none) :
    a.firings.map (·.time) = dueTimes delay a.now history := by
  rw [h.tidy.next?] at hnext
  rw [h.fired a.now le_rfl, hnext, Option.toList_none, List.map_nil, List.append_nil]

theorem Follows.outside (h : Follows delay history a) (hnext : a.next? a.now = none) :
    Follows delay (history ++ [⟨a.now, false, []⟩]) a where
  delay_eq := h.delay_eq
  tidy := h.tidy
  time_le := List.forall_mem_append.2 ⟨h.time_le, List.forall_mem_singleton.2 le_rfl⟩
  armed := h.armed.trans (stands_append_of_idle rfl rfl).symm
  disarmed := h.disarmed
  fired limit hle := (dueTimes_append_of_idle rfl).trans (h.fired limit hle)
  settled := by
    intro earlier turn hsplit _
    obtain ⟨rfl, -⟩ := List.append_inj' hsplit rfl
    exact (h.fired_now hnext).symm

theorem Follows.rings (h : Follows delay history a) {limit : Rat} {arming : Arming}
    (hnext : a.next? limit = some arming) (replies : List (List TimerCommand)) :
    Follows delay (history ++ [⟨(a.ring arming).now, true, []⟩])
      { a.ring arming with replies } := by
  obtain ⟨hpending, -⟩ := h.tidy.of_next? hnext
  have hlater : a.now ≤ (a.ring arming).now := a.ring_now arming ▸ le_max_left _ _
  -- from the expiry on, the arming is among those that are over
  have hfired (limit : Rat) (hle : (a.ring arming).now ≤ limit) :
      dueTimes delay limit history = (a.ring arming).firings.map (·.time) := by
    have hdue : arming.due ≤ limit := (a.ring_now arming ▸ le_max_right _ _).trans hle
    rw [h.fired limit (hlater.trans hle), Timer.due?_eq_some_iff.2 ⟨hpending, hdue⟩,
      Option.toList_some, List.map_singleton, ← ring_now]
    simp [ring]
  exact {
    delay_eq := h.delay_eq
    tidy := h.tidy.ring hpending
    time_le := List.forall_mem_append.2
      ⟨fun t ht => (h.time_le t ht).trans hlater, List.forall_mem_singleton.2 le_rfl⟩
    armed := by simp [stands_append_of_busy, Turn.Arms, ring, Timer.cancel, Timer.armed]
    disarmed := List.forall_mem_append.2 ⟨h.disarmed, List.forall_mem_singleton.2 rfl⟩
    fired := by
      intro limit hle
      rw [dueTimes_append_of_idle rfl, hfired limit hle]
      simp [ring, Timer.cancel, Timer.due?]
    settled := by
      intro earlier turn hsplit _
      obtain ⟨rfl, -⟩ := List.append_inj' hsplit rfl
      exact hfired _ le_rfl }

theorem Follows.obeys {fired : Bool} {commands : List TimerCommand}
    (h : Follows delay (history ++ [⟨a.now, fired, commands⟩]) a) (c : TimerCommand) :
    Follows delay (history ++ [⟨a.now, fired, commands ++ [c]⟩]) (a.obey c) := by
  have hsettled := h.settled history _ rfl rfl
  have hbusy : commands ++ [c] ≠ [] := by simp
  have hlast : (commands ++ [c]).getLast? = some c := List.getLast?_concat
  exact {
    delay_eq := (a.obey_delay c).trans h.delay_eq
    tidy := h.tidy.obey c
    time_le := by
      rw [obey_now]
      obtain ⟨hhistory, -⟩ := List.forall_mem_append.1 h.time_le
      exact List.forall_mem_append.2 ⟨hhistory, List.forall_mem_singleton.2 le_rfl⟩
    armed := by
      rw [stands_append_of_busy (.inr hbusy), Turn.Arms, hlast]
      cases c with
      | arm => simp [obey, arm_timer, Timer.arm, Timer.armed]
      | cancel => simp [obey, cancel_timer, Timer.cancel, Timer.armed]
    disarmed := (a.obey_firings c).symm ▸ h.disarmed
    fired := by
      intro limit hle
      rw [obey_now] at hle ⊢
      rw [obey_firings]
      cases c with
      | arm =>
        have hdue : a.now + max delay 0 = max a.now (a.now + delay) := by
          rw [← max_add_add_left, add_zero, max_comm]
        rw [dueTimes_append_of_arms hlast hle, hsettled, Turn.due, hdue]
        simp only [obey, arm_timer, Timer.arm, Timer.due?, Timer.cancel, h.delay_eq]
        by_cases hover : a.now + delay ≤ limit
        · simp [Option.filter_some, hover, hle]
        · simp [Option.filter_some, hover]
      | cancel =>
        rw [dueTimes_append_of_cancels hlast hle, hsettled]
        simp [obey, cancel_timer, Timer.cancel, Timer.due?]
    settled := by
      intro earlier turn hsplit _
      obtain ⟨rfl, -⟩ := List.append_inj' hsplit rfl
      rw [obey_now, obey_firings, hsettled] }

theorem Follows.waits (h : Follows delay history a) {time : Rat} (hle : a.now ≤ time)
    (hnext : a.next? time = none) : Follows delay history { a with now := time } where
  delay_eq := h.delay_eq
  tidy := h.tidy
  time_le t ht := (h.time_le t ht).trans hle
  armed := h.armed
  disarmed := h.disarmed
  fired := by
    intro limit hlimit
    rw [h.fired limit (hle.trans hlimit)]
    congr 1
    refine List.map_congr_left fun arming harming => ?_
    have hpending := (Timer.due?_eq_some_iff.1 (Option.mem_toList.1 harming)).1
    have hlt := h.tidy.lt_due hnext hpending
    -- the call that is to be made is later than both
    rw [max_eq_right (hle.trans hlt.le), max_eq_right hlt.le]
  settled := by
    rintro earlier turn rfl hturn
    have hearlier : turn.time ≤ a.now := h.time_le turn (by simp)
    have hnow : a.now = time := le_antisymm hle (hturn.symm.trans_le hearlier)
    exact hnow ▸ h.settled earlier turn rfl (hturn.trans hnow.symm)

theorem Moment.follows (h : Moment delay history a) : Follows delay history a := by
  induction h with
  | start replies => exact .start delay replies
  | outside _ hnext ih => exact ih.outside hnext
  | rings replies _ hnext ih => exact ih.rings hnext replies
  | obeys c _ ih => exact ih.obeys c
  | waits _ hle hnext ih => exact ih.waits hle hnext

end

/-! ## Runs -/

/-- What happens to an alarm from outside: commands in one go, or time that passes. -/
inductive Step where
  | turn (commands : List TimerCommand)
  | advance (seconds : ℚ≥0)

def after (a : Alarm) : Step → Alarm
  | .turn commands => (commands.foldl obey a).runUntil a.now
  | .advance seconds => a.advance seconds

example (a : Alarm) (c : TimerCommand) : a.after (.turn [c]) = a.command c := rfl

def run (a : Alarm) (steps : List Step) : Alarm := steps.foldl after a

/-- The turns of the calls that `expireAll` makes. -/
def expiries (limit : Rat) : (count : Nat) → Alarm → List Turn
  | 0, _ => []
  | count + 1, a =>
    match a.next? limit with
    | none => []
    | some arming =>
      ⟨(a.ring arming).now, true, a.replies.headD []⟩ :: expiries limit count (a.expire arming)

def expiriesUntil (a : Alarm) (limit : Rat) : List Turn :=
  a.expiries limit (a.replies.length + 1)

/-- The turns of a step: that of its commands, and those of the calls that are made. -/
def turnsOf (a : Alarm) : Step → List Turn
  | .turn commands =>
    ⟨a.now, false, commands⟩ :: (commands.foldl obey a).expiriesUntil a.now
  | .advance seconds => a.expiriesUntil (a.now + seconds)

/-- The history that a run makes. -/
def history (a : Alarm) : List Step → List Turn
  | [] => []
  | step :: steps => a.turnsOf step ++ (a.after step).history steps

section

variable {delay : Rat} {past : List Turn} {a : Alarm}

theorem obey_replies (a : Alarm) (c : TimerCommand) : (a.obey c).replies = a.replies := by
  cases c <;> simp only [obey, arm, cancel] <;> split <;> rfl

theorem foldl_obey_replies (commands : List TimerCommand) (a : Alarm) :
    (commands.foldl obey a).replies = a.replies := by
  induction commands generalizing a with
  | nil => rfl
  | cons c commands ih => exact (ih _).trans (a.obey_replies c)

theorem foldl_obey_now (commands : List TimerCommand) (a : Alarm) :
    (commands.foldl obey a).now = a.now := by
  induction commands generalizing a with
  | nil => rfl
  | cons c commands ih => exact (ih _).trans (a.obey_now c)

theorem expire_now (a : Alarm) (arming : Arming) : (a.expire arming).now = (a.ring arming).now :=
  foldl_obey_now _ _

theorem expire_replies (a : Alarm) (arming : Arming) :
    (a.expire arming).replies = a.replies.tail :=
  foldl_obey_replies _ _

/-- A turn goes on with more commands. -/
theorem Moment.foldl_obey {fired : Bool} {commands : List TimerCommand}
    (h : Moment delay (past ++ [⟨a.now, fired, commands⟩]) a) (more : List TimerCommand) :
    Moment delay (past ++ [⟨a.now, fired, commands ++ more⟩]) (more.foldl obey a) := by
  induction more generalizing a commands with
  | nil => rwa [List.append_nil]
  | cons c more ih =>
    have hnext := h.obeys c
    rw [← obey_now a c] at hnext
    have hmore := ih hnext
    rwa [obey_now, List.append_assoc] at hmore

theorem Moment.expire (h : Moment delay past a) {limit : Rat} {arming : Arming}
    (hnext : a.next? limit = some arming) :
    Moment delay (past ++ [⟨(a.ring arming).now, true, a.replies.headD []⟩]) (a.expire arming) := by
  let fired : Alarm := { a.ring arming with replies := a.replies.tail }
  have hfired : Moment delay (past ++ [⟨fired.now, true, []⟩]) fired :=
    h.rings a.replies.tail hnext
  exact hfired.foldl_obey (a.replies.headD [])

/-- All calls that are due are made, if there is a reply to each of them but the last. -/
theorem Moment.expireAll (h : Moment delay past a) {limit : Rat} (hle : a.now ≤ limit)
    {count : Nat} (hcount : a.timer.pending = none ∨ a.replies.length < count) :
    Moment delay (past ++ a.expiries limit count) (a.expireAll limit count) ∧
      (a.expireAll limit count).now ≤ limit ∧
      (a.expireAll limit count).next? limit = none := by
  induction count generalizing past a with
  | zero =>
    have hpending := hcount.resolve_right (Nat.not_lt_zero _)
    refine ⟨by simpa [expiries, Alarm.expireAll] using h, hle, ?_⟩
    rw [Alarm.expireAll, h.follows.tidy.next?, Timer.due?, hpending, Option.filter_none]
  | succ count ih =>
    rw [expiries, Alarm.expireAll]
    cases hnext : a.next? limit with
    | none => exact ⟨by simpa using h, hle, hnext⟩
    | some arming =>
      obtain ⟨hpending, hdue⟩ := h.follows.tidy.of_next? hnext
      have hnow : (a.expire arming).now ≤ limit := by
        rw [expire_now, ring_now]
        exact max_le hle hdue
      have hreplies : (a.expire arming).timer.pending = none ∨
          (a.expire arming).replies.length < count := by
        rw [expire_replies]
        cases hrest : a.replies with
        | nil => exact .inl (by simp [Alarm.expire, hrest, ring, Timer.cancel])
        | cons reply replies =>
          have hlt := hcount.resolve_left (by simp [hpending])
          rw [hrest, List.length_cons] at hlt
          exact .inr (Nat.lt_of_succ_lt_succ hlt)
      have hall := ih (h.expire hnext) hnow hreplies
      rwa [List.append_assoc, List.singleton_append] at hall

theorem Moment.runUntil (h : Moment delay past a) {limit : Rat} (hle : a.now ≤ limit) :
    Moment delay (past ++ a.expiriesUntil limit) (a.runUntil limit) ∧
      (a.runUntil limit).now ≤ limit ∧ (a.runUntil limit).next? limit = none :=
  h.expireAll hle (.inr (Nat.lt_succ_self _))

/-- A step leads from a moment at which nothing is due to another one. -/
theorem Moment.after (h : Moment delay past a) (hnext : a.next? a.now = none) (step : Step) :
    Moment delay (past ++ a.turnsOf step) (a.after step) ∧
      (a.after step).next? (a.after step).now = none := by
  cases step with
  | turn commands =>
    have hturn := (h.outside hnext).foldl_obey commands
    rw [List.nil_append] at hturn
    obtain ⟨hmoment, hnow, hdone⟩ := hturn.runUntil (foldl_obey_now commands a).le
    rw [List.append_assoc, List.singleton_append] at hmoment
    exact ⟨hmoment, hmoment.follows.tidy.next?_of_le hnow hdone⟩
  | advance seconds =>
    have hle : a.now ≤ a.now + seconds := le_add_of_nonneg_right seconds.2
    obtain ⟨hmoment, hnow, hdone⟩ := h.runUntil hle
    exact ⟨hmoment.waits hnow hdone, hdone⟩

theorem Moment.run (h : Moment delay past a) (hnext : a.next? a.now = none) (steps : List Step) :
    Moment delay (past ++ a.history steps) (a.run steps) ∧
      (a.run steps).next? (a.run steps).now = none := by
  induction steps generalizing past a with
  | nil => exact ⟨by simpa [history, Alarm.run] using h, hnext⟩
  | cons step steps ih =>
    obtain ⟨hafter, hrest⟩ := h.after hnext step
    have hrun := ih hafter hrest
    rwa [List.append_assoc] at hrun

end

/-! ## The trace of a timer -/

/-- However a timer is armed and cancelled while time passes, and whatever is done when it fires, it
fires once for each arming that is left alone until its delay is over, at that very time, and at no
other time. At every moment the clock has at most one call to make, and the timer is armed if and
only if the last thing that happened to it was an arming; so it is not armed any more when what is
to be done begins. -/
theorem fires_when_left_alone (delay : Rat) :
    (∀ (replies : List (List TimerCommand)) (steps : List Step),
      let start : Alarm := { timer := { delay }, replies }
      (start.run steps).firings.map (·.time) =
          dueTimes delay (start.run steps).now (start.history steps) ∧
        Moment delay (start.history steps) (start.run steps)) ∧
      ∀ (history : List Turn) (a : Alarm), Moment delay history a →
        (a.next? a.now = none → a.firings.map (·.time) = dueTimes delay a.now history) ∧
          a.live.length ≤ 1 ∧ (a.timer.armed = true ↔ Stands history) ∧
          ∀ f ∈ a.firings, f.armed = false := by
  refine ⟨fun replies steps => ?_, fun history a h => ?_⟩
  · have hstart : Moment delay [] { timer := { delay }, replies } := .start replies
    obtain ⟨hmoment, hnext⟩ := hstart.run (hstart.follows.tidy.next? _) steps
    exact ⟨hmoment.follows.fired_now hnext, hmoment⟩
  · have hfollows := h.follows
    refine ⟨hfollows.fired_now, ?_, hfollows.armed, hfollows.disarmed⟩
    rw [hfollows.tidy]
    cases a.timer.pending <;> simp

/-- A timer that is armed again when it fires, twice, and then disarmed at once. -/
def restless : Alarm := { timer := { delay := 1 }, replies := [[.arm], [.arm, .cancel]] }

/-- The timer is armed anew before its delay is over, and cancelled when nothing is due. -/
def restlessSteps : List Step :=
  [.turn [.arm], .advance ⟨1 / 2, by decide +kernel⟩, .turn [.arm, .cancel, .arm],
    .advance ⟨3, by decide +kernel⟩, .turn [.cancel], .turn [.arm]]

theorem restless_fires_twice :
    (restless.run restlessSteps).firings.map (·.time) = [3 / 2, 5 / 2] ∧
      dueTimes 1 (restless.run restlessSteps).now (restless.history restlessSteps) =
        [3 / 2, 5 / 2] ∧
      (restless.run restlessSteps).live.length ≤ 1 ∧ Stands (restless.history restlessSteps) := by
  obtain ⟨hruns, hmoments⟩ := fires_when_left_alone 1
  obtain ⟨htimes, hmoment⟩ := hruns [[.arm], [.arm, .cancel]] restlessSteps
  obtain ⟨-, hlive, harmed, -⟩ := hmoments _ _ hmoment
  have hfirings : (restless.run restlessSteps).firings.map (·.time) = [3 / 2, 5 / 2] := by
    decide +kernel
  have hstill : (restless.run restlessSteps).timer.armed = true := by decide +kernel
  exact ⟨hfirings, htimes.symm.trans hfirings, hlive, harmed.1 hstill⟩

end DeferredSave.Alarm
