import DeferredSave.Status.Board

/-!
# A board in talk with its listeners

While a listener is told of a status it has the floor: it may call the board in its turn, until it
returns or fails. An event that it fires is announced to everybody before it gets the floor back.
A `Talk` is a board together with the announcements that are under way, so that whatever listeners
do is a sequence of moves. The events that `Board.fire` carries out in one go are such sequences
(`Talk.exists_run_fire`).
-/

namespace DeferredSave

/-! ## Boards -/

namespace Board

variable {b : Board} {e : StatusEvent}

/-- The board with the indicator after an event. -/
def shows (b : Board) (e : StatusEvent) : Board := { b with indicator := ⟨e.target, e.error?⟩ }

theorem shift_of_not_canBecome (h : b.indicator.status.canBecome e.target = false) :
    b.shift e = .error ⟨b.indicator.status, e.target⟩ := by
  simp [shift, Indicator.after, h, Except.map]

theorem shift_of_eq (h : b.indicator.status.canBecome e.target = true)
    (heq : b.indicator.status = e.target) : b.shift e = .ok (b.shows e, []) := by
  rw [heq] at h
  simp [shift, Indicator.after, heq, h, Except.map, shows]

theorem shift_of_ne (h : b.indicator.status.canBecome e.target = true)
    (hne : b.indicator.status ≠ e.target) : b.shift e = .ok (b.shows e, b.listeners) := by
  simp [shift, Indicator.after, hne, h, Except.map, shows]

/-- Using a handle changes the registrations only. -/
theorem unsubscribe_cases (b : Board) (handle : Nat) :
    (b.handles[handle]? = none ∧ b.unsubscribe handle = b) ∨
      ∃ listener, b.handles[handle]? = some listener ∧
        b.unsubscribe handle = { b with listeners := b.listeners.erase listener } := by
  cases h : b.handles[handle]? with
  | none => exact .inl ⟨rfl, by rw [unsubscribe, h]⟩
  | some listener => exact .inr ⟨listener, rfl, by rw [unsubscribe, h]⟩

theorem unsubscribe_indicator (b : Board) (handle : Nat) :
    (b.unsubscribe handle).indicator = b.indicator := by
  unfold unsubscribe
  split <;> rfl

theorem unsubscribe_notices (b : Board) (handle : Nat) :
    (b.unsubscribe handle).notices = b.notices := by
  unfold unsubscribe
  split <;> rfl

theorem unsubscribe_handles (b : Board) (handle : Nat) :
    (b.unsubscribe handle).handles = b.handles := by
  unfold unsubscribe
  split <;> rfl

end Board

/-! ## Talks -/

/-- A call of a board. -/
inductive BoardCall where
  | fire (e : StatusEvent)
  | subscribe (listener : String)
  | unsubscribe (handle : Nat)
deriving DecidableEq, Repr

/-- A status that is being announced, and the registrations that are still to be told. -/
structure Announcement where
  status : Status
  waiting : List String
deriving DecidableEq, Repr

/-- A notice, and what the indicator showed when it was given. -/
structure Delivery where
  notice : Notice
  shown : Indicator
deriving DecidableEq, Repr

structure Talk where
  board : Board := {}
  /-- The announcements under way, the innermost one first. The floor is with the listener that it
  has told last, and without an announcement it is outside. -/
  announcements : List Announcement := []
  /-- What was told so far. -/
  told : List Delivery := []
deriving DecidableEq, Repr

namespace Talk

/-- What is done by whoever has the floor. -/
inductive Move where
  | call (c : BoardCall)
  | returns
  /-- The listener fails, which stays with it. -/
  | fails
deriving DecidableEq, Repr

/-- Whether a move fires an event. -/
def Move.fires : Move → Bool
  | call (.fire _) => true
  | _ => false

/-- Whether a move gives the floor back. -/
def Move.ends : Move → Bool
  | returns | fails => true
  | call _ => false

def indicator (t : Talk) : Indicator := t.board.indicator

def status (t : Talk) : Status := t.indicator.status

/-- Tells a listener of a status, with the error that is shown now. -/
def tell (t : Talk) (listener : String) (status : Status) : Talk :=
  { t with
    board := t.board.tell listener status
    told := t.told ++ [⟨⟨listener, status, t.indicator.error⟩, t.indicator⟩] }

/-- Goes on with the innermost announcement: tells the next registration, or gives the floor back to
whoever has fired the event. -/
def goOn (t : Talk) : Talk :=
  match t.announcements with
  | [] => t
  | ⟨_, []⟩ :: outer => { t with announcements := outer }
  | ⟨status, listener :: waiting⟩ :: outer =>
    { t.tell listener status with announcements := ⟨status, waiting⟩ :: outer }

def call (t : Talk) : BoardCall → Talk × Option InvalidTransition
  | .fire e =>
    match t.board.shift e with
    | .error x => (t, some x)
    | .ok (board, told) =>
      (goOn { t with board, announcements := ⟨e.target, told⟩ :: t.announcements }, none)
  | .subscribe listener => ({ t with board := t.board.subscribe listener }, none)
  | .unsubscribe handle => ({ t with board := t.board.unsubscribe handle }, none)

def after (t : Talk) : Move → Talk
  | .call c => (t.call c).1
  | .returns | .fails => t.goOn

def run (t : Talk) (moves : List Move) : Talk := moves.foldl after t

section

variable {t : Talk} {e : StatusEvent}

@[simp] theorem run_nil (t : Talk) : t.run [] = t := rfl

@[simp] theorem run_cons (t : Talk) (m : Move) (moves : List Move) :
    t.run (m :: moves) = (t.after m).run moves := rfl

theorem run_append (t : Talk) (before later : List Move) :
    t.run (before ++ later) = (t.run before).run later :=
  List.foldl_append

/-! ## Events -/

/-- The talk with the indicator after an event, before anybody is told. -/
def shows (t : Talk) (e : StatusEvent) : Talk := { t with board := t.board.shows e }

/-- The talk in which a status is about to be announced to some registrations. -/
def announces (t : Talk) (status : Status) (listeners : List String) : Talk :=
  { t with announcements := ⟨status, listeners⟩ :: t.announcements }

theorem fire_of_not_canBecome (h : t.status.canBecome e.target = false) :
    t.call (.fire e) = (t, some ⟨t.status, e.target⟩) := by
  rw [call, Board.shift_of_not_canBecome h]
  rfl

/-- An event that leaves the status as it is is announced to nobody. -/
theorem fire_of_eq (h : t.status.canBecome e.target = true) (heq : t.status = e.target) :
    t.call (.fire e) = (t.shows e, none) := by
  rw [call, Board.shift_of_eq h heq]
  rfl

theorem fire_of_ne (h : t.status.canBecome e.target = true) (hne : t.status ≠ e.target) :
    t.call (.fire e) =
      (((t.shows e).announces e.target t.board.listeners).goOn, none) := by
  rw [call, Board.shift_of_ne h hne]
  rfl

@[simp] theorem goOn_announces_nil (t : Talk) (status : Status) :
    (t.announces status []).goOn = t := rfl

theorem goOn_announces_cons (t : Talk) (status : Status) (listener : String)
    (waiting : List String) :
    (t.announces status (listener :: waiting)).goOn =
      (t.tell listener status).announces status waiting := rfl

/-- An event leaves the talk as it is, or moves the indicator and tells somebody or nobody. -/
theorem call_fire_cases (t : Talk) (e : StatusEvent) :
    (t.call (.fire e)).1 = t ∨
      ∃ told, (t.call (.fire e)).1 = ((t.shows e).announces e.target told).goOn := by
  cases hbecome : t.status.canBecome e.target with
  | false => exact .inl (by rw [fire_of_not_canBecome hbecome])
  | true =>
    by_cases heq : t.status = e.target
    · exact .inr ⟨[], by rw [fire_of_eq hbecome heq, goOn_announces_nil]⟩
    · exact .inr ⟨t.board.listeners, by rw [fire_of_ne hbecome heq]⟩

end

/-! ## Events that are carried out in one go -/

section

variable (reactions : String → Board.Reaction)

/-- What a board does when a listener is told and reacts. -/
def react (depth : Nat) (status : Status) (b : Board) (listener : String) : Board :=
  let b := b.tell listener status
  match reactions listener with
  | .nothing => b
  | .fire e => (b.fire reactions depth e).1
  | .unsubscribe handle => b.unsubscribe handle

variable {reactions}

theorem fire_succ (depth : Nat) (b : Board) (e : StatusEvent) :
    b.fire reactions (depth + 1) e =
      match b.shift e with
      | .error x => (b, some x)
      | .ok (b, told) => (told.foldl (react reactions depth e.target) b, none) := rfl

/-- The moves lead to a board and announcements, and fire events only if listeners do. -/
structure Plays (reactions : String → Board.Reaction) (t : Talk) (moves : List Move) (b : Board)
    (announcements : List Announcement) : Prop where
  board : (t.run moves).board = b
  announcements : (t.run moves).announcements = announcements
  calm : (∀ listener e, reactions listener ≠ .fire e) → ∀ m ∈ moves, m.fires = false

/-- All events that are carried out down to some depth are moves of a talk. -/
def Playable (reactions : String → Board.Reaction) (depth : Nat) : Prop :=
  ∀ (t : Talk) (e : StatusEvent), ∃ moves,
    (t.run moves).board = (t.board.fire reactions depth e).1 ∧
      (t.run moves).announcements = t.announcements

variable {depth : Nat}

/-- What a listener does when it has been told. -/
theorem Playable.exists_plays_react (h : Playable reactions depth) (t : Talk) (status : Status)
    (listener : String) (waiting : List String) :
    ∃ moves, Plays reactions (t.announces status (listener :: waiting)).goOn moves
      (react reactions depth status t.board listener) (⟨status, waiting⟩ :: t.announcements) := by
  rw [goOn_announces_cons]
  cases hreact : reactions listener with
  | nothing => exact ⟨[], by simp only [react, hreact]; rfl, rfl, nofun⟩
  | fire e =>
    obtain ⟨moves, hboard, hannouncements⟩ :=
      h ((t.tell listener status).announces status waiting) e
    exact ⟨moves, by simp only [react, hreact]; exact hboard, hannouncements,
      fun hcalm => (hcalm listener e hreact).elim⟩
  | unsubscribe handle =>
    exact ⟨[.call (.unsubscribe handle)], by simp only [react, hreact]; rfl, rfl,
      fun _ => List.forall_mem_singleton.2 rfl⟩

/-- The registrations are told one after the other, and then the floor is where it was. -/
theorem Playable.exists_plays (h : Playable reactions depth) (t : Talk) (status : Status)
    (waiting : List String) :
    ∃ moves, Plays reactions (t.announces status waiting).goOn moves
      (waiting.foldl (react reactions depth status) t.board) t.announcements := by
  induction waiting generalizing t with
  | nil => exact ⟨[], rfl, rfl, nofun⟩
  | cons listener waiting ih =>
    obtain ⟨first, hfirst⟩ := h.exists_plays_react t status listener waiting
    let s := (t.announces status (listener :: waiting)).goOn.run first
    obtain ⟨rest, hrest⟩ := ih { s with announcements := t.announcements }
    have hreturns : s.after .returns =
        (announces { s with announcements := t.announcements } status waiting).goOn := by
      rw [announces, ← hfirst.announcements]
      rfl
    have hrun : (t.announces status (listener :: waiting)).goOn.run (first ++ .returns :: rest) =
        (announces { s with announcements := t.announcements } status waiting).goOn.run rest := by
      rw [run_append, run_cons, ← hreturns]
    refine ⟨first ++ .returns :: rest, ?_, ?_, ?_⟩
    · rw [hrun, hrest.board, List.foldl_cons, ← hfirst.board]
    · rw [hrun, hrest.announcements]
    · intro hcalm
      refine List.forall_mem_append.2 ⟨hfirst.calm hcalm, ?_⟩
      exact List.forall_mem_cons.2 ⟨rfl, hrest.calm hcalm⟩

/-- An event that is carried out in one go, with the moves of listeners. -/
theorem Playable.exists_plays_fire (h : Playable reactions depth) (t : Talk) (e : StatusEvent) :
    (t.board.fire reactions (depth + 1) e).2 = (t.call (.fire e)).2 ∧
      ∃ moves, Plays reactions (t.call (.fire e)).1 moves
        (t.board.fire reactions (depth + 1) e).1 t.announcements := by
  rw [fire_succ, call]
  cases hshift : t.board.shift e with
  | error x => exact ⟨rfl, [], rfl, rfl, nofun⟩
  | ok shifted => exact ⟨rfl, h.exists_plays { t with board := shifted.1 } e.target shifted.2⟩

theorem playable (reactions : String → Board.Reaction) (depth : Nat) :
    Playable reactions depth := by
  induction depth with
  | zero => exact fun t e => ⟨[], rfl, rfl⟩
  | succ depth ih =>
    intro t e
    obtain ⟨-, moves, hplays⟩ := ih.exists_plays_fire t e
    exact ⟨.call (.fire e) :: moves, hplays.board, hplays.announcements⟩

end

end Talk

end DeferredSave
