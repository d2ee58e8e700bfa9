import DeferredSave.Proofs.Status.Talk

/-!
# Who is told of an event

An event from outside that changes the status is told to the registrations that are there when it
comes, to each of them once and in their order, if listeners fire no events meanwhile. It does not
matter whether they fail, and what they register or drop (`Talk.Announced.run`). Using a handle
drops one registration of its listener at most, so the registrations of a listener are lost by its
own handles only (`Talk.count_le_run`).
-/

namespace DeferredSave

theorem StatusEvent.isSome_error?_iff (e : StatusEvent) :
    e.error?.isSome = true ↔ e.target = .error := by
  cases e <;> simp [error?, target]

/-- Only a status without an error may follow itself. -/
theorem Status.ne_error_of_canBecome_self {s : Status} (h : s.canBecome s = true) :
    s ≠ .error := by
  rintro rfl
  cases h

theorem Indicator.ext {i j : Indicator} (hstatus : i.status = j.status)
    (herror : i.error = j.error) : i = j := by
  cases i
  cases j
  simp_all

namespace Talk

variable {t : Talk} {e : StatusEvent}

/-! ## The indicator -/

theorem goOn_indicator (t : Talk) : t.goOn.indicator = t.indicator := by
  unfold goOn
  split <;> rfl

/-- An error is shown with the status of a failure, and with no other. -/
def Sound (t : Talk) : Prop := t.indicator.error.isSome = true ↔ t.status = .error

theorem Sound.of_indicator {t' : Talk} (h : t.Sound) (heq : t'.indicator = t.indicator) :
    t'.Sound := by
  unfold Sound status at h ⊢
  rwa [heq]

theorem sound_shows (t : Talk) (e : StatusEvent) : (t.shows e).Sound := e.isSome_error?_iff

/-- If the status stays, so does the error, since there is none. -/
theorem Sound.shows_eq (h : t.Sound) (hbecome : t.status.canBecome e.target = true)
    (heq : t.status = e.target) : t.shows e = t := by
  have hstatus : t.status ≠ .error := Status.ne_error_of_canBecome_self (heq ▸ hbecome)
  have hbefore : t.indicator.error = none := by simpa using mt h.1 hstatus
  have hafter : e.error? = none := by simpa using mt e.isSome_error?_iff.1 (heq ▸ hstatus)
  have hindicator : t.board.indicator = ⟨e.target, e.error?⟩ :=
    Indicator.ext heq (hbefore.trans hafter.symm)
  rw [shows, Board.shows, ← hindicator]

/-- What an event does: it is refused, it changes nothing, or it is announced. -/
theorem Sound.fire_cases (h : t.Sound) (e : StatusEvent) :
    (t.status.canBecome e.target = false ∧
        t.call (.fire e) = (t, some ⟨t.status, e.target⟩)) ∨
      (t.status.canBecome e.target = true ∧ t.status = e.target ∧ t.call (.fire e) = (t, none)) ∨
      (t.status.canBecome e.target = true ∧ t.status ≠ e.target ∧
        t.call (.fire e) =
          (((t.shows e).announces e.target t.board.listeners).goOn, none)) := by
  cases hbecome : t.status.canBecome e.target with
  | false => exact .inl ⟨rfl, fire_of_not_canBecome hbecome⟩
  | true =>
    by_cases heq : t.status = e.target
    · exact .inr (.inl ⟨rfl, heq, by rw [fire_of_eq hbecome heq, h.shows_eq hbecome heq]⟩)
    · exact .inr (.inr ⟨rfl, heq, fire_of_ne hbecome heq⟩)

theorem Sound.after (h : t.Sound) (m : Move) : (t.after m).Sound := by
  cases m with
  | returns => exact h.of_indicator t.goOn_indicator
  | fails => exact h.of_indicator t.goOn_indicator
  | call c =>
    cases c with
    | subscribe listener => exact h
    | unsubscribe handle => exact h.of_indicator (t.board.unsubscribe_indicator handle)
    | fire e =>
      change (t.call (.fire e)).1.Sound
      rcases h.fire_cases e with ⟨-, heq⟩ | ⟨-, -, heq⟩ | ⟨-, -, heq⟩ <;> rw [heq]
      · exact h
      · exact h
      · exact (t.sound_shows e).of_indicator (goOn_indicator _)

theorem Sound.run (h : t.Sound) (moves : List Move) : (t.run moves).Sound := by
  induction moves generalizing t with
  | nil => exact h
  | cons m moves ih => exact ih (h.after m)

theorem sound_start : ({} : Talk).Sound := by simp [Sound, indicator, status]

/-! ## The registrations that are told -/

/-- An event that came to the board `b` from outside has been told to some registrations, and
`done` of these have given the floor back. -/
structure Announced (b : Board) (e : StatusEvent) (done : Nat) (t : Talk) : Prop where
  indicator : t.indicator = ⟨e.target, e.error?⟩
  notices : t.board.notices =
    b.notices ++ (b.listeners.take (done + 1)).map (⟨·, e.target, e.error?⟩)
  announcements : t.announcements =
    if done < b.listeners.length then [⟨e.target, b.listeners.drop (done + 1)⟩] else []

/-- Whether the next registration is to be told, or there is none. -/
theorem goOn_of_drop {status : Status} {listeners : List String} {done : Nat}
    (h : t.announcements = [⟨status, listeners.drop done⟩]) :
    t.goOn.board.notices =
        t.board.notices ++ listeners[done]?.toList.map (⟨·, status, t.indicator.error⟩) ∧
      t.goOn.announcements =
        if done < listeners.length then [⟨status, listeners.drop (done + 1)⟩] else [] := by
  by_cases hlt : done < listeners.length
  · rw [List.drop_eq_getElem_cons hlt] at h
    rw [if_pos hlt, List.getElem?_eq_getElem hlt, goOn, h]
    exact ⟨rfl, rfl⟩
  · rw [List.drop_of_length_le (Nat.le_of_not_lt hlt)] at h
    rw [if_neg hlt, List.getElem?_eq_none (Nat.le_of_not_lt hlt), goOn, h]
    exact ⟨by simp, rfl⟩

theorem announced_fire (hidle : t.announcements = []) (hbecome : t.status.canBecome e.target = true)
    (hne : t.status ≠ e.target) : Announced t.board e 0 (t.call (.fire e)).1 := by
  have hwaiting : ((t.shows e).announces e.target t.board.listeners).announcements =
      [⟨e.target, t.board.listeners.drop 0⟩] := by
    change ⟨e.target, t.board.listeners⟩ :: t.announcements = _
    rw [hidle, List.drop_zero]
  obtain ⟨hnotices, hannouncements⟩ := goOn_of_drop hwaiting
  rw [fire_of_ne hbecome hne]
  refine ⟨goOn_indicator _, hnotices.trans ?_, hannouncements⟩
  rw [List.take_add_one, List.take_zero, List.nil_append]
  rfl

variable {b : Board} {done : Nat}

theorem Announced.goOn (h : Announced b e done t) : Announced b e (done + 1) t.goOn := by
  by_cases hlt : done < b.listeners.length
  · have hwaiting := h.announcements
    rw [if_pos hlt] at hwaiting
    obtain ⟨hnotices, hannouncements⟩ := goOn_of_drop hwaiting
    refine ⟨t.goOn_indicator.trans h.indicator, ?_, hannouncements⟩
    rw [hnotices, h.notices, h.indicator, List.take_add_one (i := done + 1), List.map_append,
      List.append_assoc]
  · -- the floor is outside already
    have hle : b.listeners.length ≤ done := Nat.le_of_not_lt hlt
    have hidle := h.announcements
    rw [if_neg hlt] at hidle
    have hstays : t.goOn = t := by rw [Talk.goOn, hidle]
    rw [hstays]
    refine ⟨h.indicator, ?_, ?_⟩
    · rw [h.notices, List.take_of_length_le (Nat.le_succ_of_le hle),
        List.take_of_length_le (Nat.le_succ_of_le (Nat.le_succ_of_le hle))]
    · rw [hidle, if_neg (Nat.not_lt.2 (Nat.le_succ_of_le hle))]

/-- A move that fires no event: a listener gives the floor back, or the registrations change. -/
theorem Announced.after (h : Announced b e done t) {m : Move} (hcalm : m.fires = false) :
    Announced b e (done + if m.ends then 1 else 0) (t.after m) := by
  cases m with
  | returns => exact h.goOn
  | fails => exact h.goOn
  | call c =>
    cases c with
    | fire e => cases hcalm
    | subscribe listener => exact ⟨h.indicator, h.notices, h.announcements⟩
    | unsubscribe handle =>
      exact ⟨(t.board.unsubscribe_indicator handle).trans h.indicator,
        (t.board.unsubscribe_notices handle).trans h.notices, h.announcements⟩

theorem Announced.run (h : Announced b e done t) {moves : List Move}
    (hcalm : ∀ m ∈ moves, m.fires = false) :
    Announced b e (done + moves.countP Move.ends) (t.run moves) := by
  induction moves generalizing t done with
  | nil => exact h
  | cons m moves ih =>
    obtain ⟨hm, hmoves⟩ := List.forall_mem_cons.1 hcalm
    have hrun := ih (h.after hm) hmoves
    rwa [Nat.add_assoc, Nat.add_comm (if m.ends then 1 else 0), ← List.countP_cons] at hrun

/-- The floor is outside again when each registration has given it back. -/
theorem Announced.idle_iff (h : Announced b e done t) :
    t.announcements = [] ↔ b.listeners.length ≤ done := by
  rw [h.announcements]
  split
  · next hlt => exact ⟨nofun, fun hle => absurd hlt (Nat.not_lt.2 hle)⟩
  · next hlt => exact ⟨fun _ => Nat.le_of_not_lt hlt, fun _ => rfl⟩

/-- An event that is carried out in one go is told to all registrations. -/
theorem fire_tells_all {reactions : String → Board.Reaction}
    (hcalm : ∀ listener e', reactions listener ≠ .fire e') (hidle : t.announcements = [])
    (hbecome : t.status.canBecome e.target = true) (hne : t.status ≠ e.target) (depth : Nat) :
    (t.board.fire reactions (depth + 1) e).1.indicator = ⟨e.target, e.error?⟩ ∧
      (t.board.fire reactions (depth + 1) e).1.notices =
        t.board.notices ++ t.board.listeners.map (⟨·, e.target, e.error?⟩) := by
  obtain ⟨-, moves, hplays⟩ := (playable reactions depth).exists_plays_fire t e
  have hrun := (announced_fire hidle hbecome hne).run (hplays.calm hcalm)
  have hall := hrun.idle_iff.1 (hplays.announcements.trans hidle)
  rw [← hplays.board]
  refine ⟨hrun.indicator, ?_⟩
  rw [hrun.notices, List.take_of_length_le (Nat.le_succ_of_le hall)]

/-! ## The registrations that are dropped -/

/-- Whether a move uses a handle of a listener. -/
def Move.uses (handles : List String) (listener : String) : Move → Bool
  | call (.unsubscribe handle) => handles[handle]? = some listener
  | _ => false

theorem goOn_listeners (t : Talk) : t.goOn.board.listeners = t.board.listeners := by
  unfold goOn
  split <;> rfl

theorem goOn_handles (t : Talk) : t.goOn.board.handles = t.board.handles := by
  unfold goOn
  split <;> rfl

/-- Only calls that register and calls that use a handle change the registrations. -/
theorem fire_listeners (t : Talk) (e : StatusEvent) :
    (t.after (.call (.fire e))).board.listeners = t.board.listeners := by
  rcases t.call_fire_cases e with heq | ⟨told, heq⟩
  · exact congrArg (·.board.listeners) heq
  · exact (congrArg (·.board.listeners) heq).trans (goOn_listeners _)

theorem fire_handles (t : Talk) (e : StatusEvent) :
    (t.after (.call (.fire e))).board.handles = t.board.handles := by
  rcases t.call_fire_cases e with heq | ⟨told, heq⟩
  · exact congrArg (·.board.handles) heq
  · exact (congrArg (·.board.handles) heq).trans (goOn_handles _)

/-- Handles are given out, and stay what they are. -/
theorem handles_prefix_after (t : Talk) (m : Move) :
    t.board.handles <+: (t.after m).board.handles := by
  cases m with
  | returns => exact t.goOn_handles ▸ List.prefix_rfl
  | fails => exact t.goOn_handles ▸ List.prefix_rfl
  | call c =>
    cases c with
    | fire e => exact t.fire_handles e ▸ List.prefix_rfl
    | subscribe listener => exact List.prefix_append _ _
    | unsubscribe handle => exact t.board.unsubscribe_handles handle ▸ List.prefix_rfl

theorem handles_prefix_run (t : Talk) (moves : List Move) :
    t.board.handles <+: (t.run moves).board.handles := by
  induction moves generalizing t with
  | nil => exact List.prefix_rfl
  | cons m moves ih => exact (t.handles_prefix_after m).trans (ih _)

/-- The use of a handle drops one registration of its listener at most, and no other one. -/
theorem unsubscribe_listeners {handle : Nat} {listener : String}
    (h : t.board.handles[handle]? = some listener) :
    (t.after (.call (.unsubscribe handle))).board =
      { t.board with listeners := t.board.listeners.erase listener } := by
  change t.board.unsubscribe handle = _
  rw [Board.unsubscribe, h]

theorem filter_ne_erase (listeners : List String) (listener : String) :
    (listeners.erase listener).filter (· ≠ listener) = listeners.filter (· ≠ listener) := by
  rw [← List.erase_filter, List.erase_of_not_mem (by simp)]

/-- A move that does not use a handle of a listener takes no registration of it away. -/
theorem count_le_after (t : Talk) (m : Move) (listener : String) {handles : List String}
    (hhandles : t.board.handles <+: handles) :
    t.board.listeners.count listener + [m].count (.call (.subscribe listener)) ≤
      (t.after m).board.listeners.count listener + [m].countP (·.uses handles listener) := by
  cases m with
  | returns => simp [Talk.after, goOn_listeners]
  | fails => simp [Talk.after, goOn_listeners]
  | call c =>
    cases c with
    | fire e => simp [fire_listeners]
    | subscribe other =>
      change _ ≤ (t.board.listeners ++ [other]).count listener + _
      rw [List.count_append, List.count_singleton]
      by_cases hother : other = listener <;> simp [hother]
    | unsubscribe handle =>
      change _ ≤ (t.board.unsubscribe handle).listeners.count listener + _
      rcases t.board.unsubscribe_cases handle with ⟨-, heq⟩ | ⟨other, hhandle, heq⟩ <;> rw [heq]
      · simp
      · have hlater : handles[handle]? = some other := by
          obtain ⟨rest, rfl⟩ := hhandles
          rwa [List.getElem?_append_left (List.getElem?_eq_some_iff.1 hhandle).1]
        by_cases hother : other = listener
        · simp only [hother] at hlater ⊢
          simp [Move.uses, hlater, List.count_erase_self]
          omega
        · simp [List.count_erase, hother]

/-- Registrations of a listener are lost by uses of its own handles only, one at most by each. -/
theorem count_le_run (t : Talk) (moves : List Move) (listener : String) {handles : List String}
    (hhandles : (t.run moves).board.handles <+: handles) :
    t.board.listeners.count listener + moves.count (.call (.subscribe listener)) ≤
      (t.run moves).board.listeners.count listener + moves.countP (·.uses handles listener) := by
  induction moves generalizing t with
  | nil => simp
  | cons m moves ih =>
    have hstep :=
      t.count_le_after m listener ((t.handles_prefix_run (m :: moves)).trans hhandles)
    have hrest := ih (t.after m) hhandles
    rw [← List.singleton_append, List.count_append, List.countP_append, List.singleton_append,
      run_cons]
    omega

/-! ## What listeners see -/

/-- Whatever was done to a board before, an error is shown with a failure only; an event that is
refused changes nothing, and one that leaves the status as it is tells nobody. An event from outside
that changes the status is told to each registration that is there when it comes, once, in their
order, with the new status and its error, as long as listeners fire no events; this does not depend
on which of them fail and on what they register and drop meanwhile, and the floor is outside again
when each has given it back. The use of a handle drops one registration of its listener if there is
one, and a listener loses registrations by its own handles only. -/
theorem visible_change_is_told_once (before : List Move) :
    let t := ({} : Talk).run before
    (t.indicator.error.isSome = true ↔ t.status = .error) ∧
      (∀ e, t.status.canBecome e.target = false →
        t.call (.fire e) = (t, some ⟨t.status, e.target⟩)) ∧
      (∀ e, t.status.canBecome e.target = true → t.status = e.target →
        t.call (.fire e) = (t, none)) ∧
      (∀ e, t.status.canBecome e.target = true → t.status ≠ e.target → t.announcements = [] →
        (t.call (.fire e)).2 = none ∧
          (∀ during, (∀ m ∈ during, m.fires = false) →
            Announced t.board e (during.countP Move.ends) ((t.call (.fire e)).1.run during)) ∧
          ∀ reactions depth, (∀ listener e', reactions listener ≠ .fire e') →
            (t.board.fire reactions (depth + 1) e).1.indicator = ⟨e.target, e.error?⟩ ∧
              (t.board.fire reactions (depth + 1) e).1.notices =
                t.board.notices ++ t.board.listeners.map (⟨·, e.target, e.error?⟩)) ∧
      (∀ handle listener, t.board.handles[handle]? = some listener →
        ∃ listeners, (t.after (.call (.unsubscribe handle))).board = { t.board with listeners } ∧
          listeners.count listener = t.board.listeners.count listener - 1 ∧
          listeners.filter (· ≠ listener) = t.board.listeners.filter (· ≠ listener)) ∧
      ∀ later listener,
        t.board.listeners.count listener + later.count (.call (.subscribe listener)) ≤
          (t.run later).board.listeners.count listener +
            later.countP (·.uses (t.run later).board.handles listener) := by
  intro t
  have hsound : t.Sound := sound_start.run before
  refine ⟨hsound, fun e => fire_of_not_canBecome, ?_, ?_, ?_,
    fun later listener => t.count_le_run later listener List.prefix_rfl⟩
  · intro e hbecome heq
    rw [fire_of_eq hbecome heq, hsound.shows_eq hbecome heq]
  · intro e hbecome hne hidle
    refine ⟨by rw [fire_of_ne hbecome hne], ?_, ?_⟩
    · intro during hcalm
      simpa using (announced_fire hidle hbecome hne).run hcalm
    · intro reactions depth hcalm
      exact fire_tells_all hcalm hidle hbecome hne depth
  · intro handle listener hhandle
    exact ⟨_, unsubscribe_listeners hhandle, List.count_erase_self, filter_ne_erase _ _⟩

/-- Two listeners, of which one is registered twice. -/
def rowdyCalls : List Move :=
  [.call (.subscribe "left"), .call (.subscribe "right"), .call (.subscribe "left")]

def rowdyTalk : Talk := ({} : Talk).run rowdyCalls

/-- The first listener drops the second one and fails, which in its turn drops the first. -/
def rowdyMoves : List Move :=
  [.call (.unsubscribe 1), .fails, .call (.unsubscribe 0), .returns, .call (.unsubscribe 2),
    .returns]

theorem rowdy_listeners_are_told_once :
    Announced rowdyTalk.board .edit 3 ((rowdyTalk.call (.fire .edit)).1.run rowdyMoves) ∧
      ((rowdyTalk.call (.fire .edit)).1.run rowdyMoves).board.notices =
        [⟨"left", .pending, none⟩, ⟨"right", .pending, none⟩, ⟨"left", .pending, none⟩] ∧
      ((rowdyTalk.call (.fire .edit)).1.run rowdyMoves).board.listeners = [] := by
  obtain ⟨-, -, -, hvisible, -, -⟩ := visible_change_is_told_once rowdyCalls
  obtain ⟨-, htold, -⟩ := hvisible .edit (by decide) (by decide) (by decide)
  exact ⟨htold rowdyMoves (by decide), by decide, by decide⟩

end Talk

end DeferredSave
