import DeferredSave.Proofs.Status.Telling

/-!
# Listeners that are overtaken

A listener may fire an event while others are still to be told of the present one. These hear of the
later event first, and then of the earlier one, together with the error that is shown by then. So a
listener that was told last of a status that was no longer shown is left with it
(`Talk.last_told_is_current_iff`); nobody is left behind if only those fire events who are told when
nobody else is waiting (`Talk.Polite.inTime`).
-/

namespace DeferredSave

/-- The status that was told was still shown. -/
def Delivery.InTime (d : Delivery) : Prop := d.notice.status = d.shown.status

instance (d : Delivery) : Decidable d.InTime := inferInstanceAs (Decidable (_ = _))

namespace Talk

variable {t : Talk} {listener : String}

/-! ## What a talk keeps -/

/-- Events are fired only when the talk is as the condition says. -/
def FiresWhen (condition : Talk → Prop) (t : Talk) : List Move → Prop
  | [] => True
  | m :: moves => (m.fires = true → condition t) ∧ (t.after m).FiresWhen condition moves

instance instDecidableFiresWhen (condition : Talk → Prop) [DecidablePred condition] (t : Talk) :
    (moves : List Move) → Decidable (t.FiresWhen condition moves)
  | [] => isTrue trivial
  | m :: moves =>
    have := instDecidableFiresWhen condition (t.after m) moves
    inferInstanceAs (Decidable ((m.fires = true → condition t) ∧ _))

/-- A property of talks is kept by all that can happen in a talk, if events are fired only when the
condition holds. -/
structure Keeps (condition P : Talk → Prop) : Prop where
  registers : ∀ t listeners handles, P t →
    P { t with board := { t.board with listeners, handles } }
  /-- An event changes the status. -/
  changes : ∀ t e, condition t → P t → P ((t.shows e).announces e.target t.board.listeners)
  tells : ∀ t status listener waiting outer,
    t.announcements = ⟨status, listener :: waiting⟩ :: outer → P t →
    P { t.tell listener status with announcements := ⟨status, waiting⟩ :: outer }
  /-- An announcement is over. -/
  ends : ∀ t status outer, t.announcements = ⟨status, []⟩ :: outer → P t →
    P { t with announcements := outer }

variable {condition P : Talk → Prop}

theorem Keeps.goOn (h : Keeps condition P) (ht : P t) : P t.goOn := by
  unfold Talk.goOn
  split
  · exact ht
  · next status outer hannouncements => exact h.ends t status outer hannouncements ht
  · next status listener waiting outer hannouncements =>
    exact h.tells t status listener waiting outer hannouncements ht

theorem Keeps.after (h : Keeps condition P) (hsound : t.Sound) (ht : P t) {m : Move}
    (hwhen : m.fires = true → condition t) : P (t.after m) := by
  cases m with
  | returns => exact h.goOn ht
  | fails => exact h.goOn ht
  | call c =>
    cases c with
    | subscribe listener => exact h.registers t _ _ ht
    | unsubscribe handle =>
      change P { t with board := t.board.unsubscribe handle }
      rcases t.board.unsubscribe_cases handle with ⟨-, heq⟩ | ⟨listener, -, heq⟩ <;> rw [heq]
      · exact ht
      · exact h.registers t _ _ ht
    | fire e =>
      change P (t.call (.fire e)).1
      rcases hsound.fire_cases e with ⟨-, heq⟩ | ⟨-, -, heq⟩ | ⟨-, -, heq⟩ <;> rw [heq]
      · exact ht
      · exact ht
      · exact h.goOn (h.changes t e (hwhen rfl) ht)

theorem Keeps.run (h : Keeps condition P) (hsound : t.Sound) (ht : P t) {moves : List Move}
    (hwhen : t.FiresWhen condition moves) : P (t.run moves) := by
  induction moves generalizing t with
  | nil => exact ht
  | cons m moves ih => exact ih (hsound.after m) (h.after hsound ht hwhen.1) hwhen.2

theorem firesWhen_true (t : Talk) (moves : List Move) : t.FiresWhen (fun _ => True) moves := by
  induction moves generalizing t with
  | nil => trivial
  | cons m moves ih => exact ⟨fun _ => trivial, ih _⟩

/-! ## What is told -/

/-- What was told is what the board has noted, each time with the error that was shown. -/
structure Noted (t : Talk) : Prop where
  sound : t.Sound
  notices : t.told.map (·.notice) = t.board.notices
  errors : ∀ d ∈ t.told,
    d.notice.error = d.shown.error ∧ (d.shown.error.isSome = true ↔ d.shown.status = .error)

theorem keeps_noted : Keeps (fun _ => True) Noted where
  registers _ _ _ h := ⟨h.sound, h.notices, h.errors⟩
  changes t e _ h := ⟨t.sound_shows e, h.notices, h.errors⟩
  tells t status listener waiting outer _ h := by
    refine ⟨h.sound, ?_, ?_⟩
    · change (t.told ++ [_]).map Delivery.notice = t.board.notices ++ [_]
      rw [List.map_append, h.notices]
      rfl
    · exact List.forall_mem_append.2 ⟨h.errors, List.forall_mem_singleton.2 ⟨rfl, h.sound⟩⟩
  ends _ _ _ _ h := ⟨h.sound, h.notices, h.errors⟩

theorem noted_run (moves : List Move) : (({} : Talk).run moves).Noted :=
  keeps_noted.run sound_start ⟨sound_start, rfl, nofun⟩ (firesWhen_true _ _)

/-- What is told agrees with itself if the status told and the one shown are both those of a
failure, or neither is. -/
theorem Noted.agrees_iff (h : t.Noted) {d : Delivery} (hd : d ∈ t.told) :
    (d.notice.error.isSome = true ↔ d.notice.status = .error) ↔
      (d.notice.status = .error ↔ d.shown.status = .error) := by
  obtain ⟨herror, hshown⟩ := h.errors d hd
  rw [herror, hshown]
  exact iff_comm

/-! ## What a listener is told last -/

/-- What a listener was told last. -/
def lastTold? (t : Talk) (listener : String) : Option Delivery :=
  t.told.reverse.find? (·.notice.listener = listener)

theorem lastTold?_tell_self (t : Talk) (listener : String) (status : Status) :
    (t.tell listener status).lastTold? listener =
      some ⟨⟨listener, status, t.indicator.error⟩, t.indicator⟩ := by
  simp [lastTold?, tell]

theorem lastTold?_tell_of_ne {other : String} (h : other ≠ listener) (t : Talk) (status : Status) :
    (t.tell other status).lastTold? listener = t.lastTold? listener := by
  simp [lastTold?, tell, h]

theorem mem_of_lastTold? {d : Delivery} (h : t.lastTold? listener = some d) : d ∈ t.told := by
  simpa using List.mem_of_find?_eq_some h

/-- A listener is still to be told of something, or the indicator is as it was when it was told
last. -/
def Informed (listener : String) (t : Talk) : Prop :=
  (∃ a ∈ t.announcements, listener ∈ a.waiting) ∨
    ∃ d, t.lastTold? listener = some d ∧ d.shown = t.indicator

theorem informed_announces {status : Status} {listeners : List String}
    (h : listener ∈ listeners) (t : Talk) : Informed listener (t.announces status listeners) :=
  .inl ⟨_, List.mem_cons_self, h⟩

theorem keeps_informed (listener : String) :
    Keeps (listener ∈ ·.board.listeners) (Informed listener) where
  registers _ _ _ h := h
  changes t e hmem _ := informed_announces hmem _
  tells t status other waiting outer hannouncements h := by
    by_cases hother : other = listener
    · subst hother
      exact .inr ⟨_, t.lastTold?_tell_self other status, rfl⟩
    · obtain ⟨a, ha, hwaiting⟩ | ⟨d, hlast, hshown⟩ := h
      · -- somebody else was the next one
        rw [hannouncements] at ha
        obtain rfl | ha := List.mem_cons.1 ha
        · obtain rfl | hwaiting := List.mem_cons.1 hwaiting
          · exact absurd rfl hother
          · exact .inl ⟨_, List.mem_cons_self, hwaiting⟩
        · exact .inl ⟨a, List.mem_cons_of_mem _ ha, hwaiting⟩
      · exact .inr ⟨d, (lastTold?_tell_of_ne hother t status).trans hlast, hshown⟩
  ends t status outer hannouncements h := by
    obtain ⟨a, ha, hwaiting⟩ | hlast := h
    · rw [hannouncements] at ha
      obtain rfl | ha := List.mem_cons.1 ha
      · cases hwaiting
      · exact .inl ⟨a, ha, hwaiting⟩
    · exact .inr hlast

/-! ## Events that overtake nobody -/

/-- Nobody is still to be told. -/
def AllTold (t : Talk) : Prop := ∀ a ∈ t.announcements, a.waiting = []

instance (t : Talk) : Decidable t.AllTold :=
  inferInstanceAs (Decidable (∀ a ∈ t.announcements, a.waiting = []))

/-- Everybody was told in time, and whoever is still to be told is to be told what is shown. -/
structure Punctual (t : Talk) : Prop where
  inTime : ∀ d ∈ t.told, d.InTime
  innermost : ∀ a ∈ t.announcements.head?, a.waiting ≠ [] → a.status = t.status
  outer : ∀ a ∈ t.announcements.tail, a.waiting = []

theorem keeps_punctual : Keeps AllTold Punctual where
  registers _ _ _ h := ⟨h.inTime, h.innermost, h.outer⟩
  changes t e hall h := by
    refine ⟨h.inTime, ?_, hall⟩
    rintro _ ⟨⟩ -
    rfl
  tells t status listener waiting outer hannouncements h := by
    have hnow : status = t.status := h.innermost ⟨status, listener :: waiting⟩
      (by rw [hannouncements]; rfl) (List.cons_ne_nil _ _)
    refine ⟨?_, ?_, ?_⟩
    · exact List.forall_mem_append.2 ⟨h.inTime, List.forall_mem_singleton.2 hnow⟩
    · rintro _ ⟨⟩ -
      exact hnow
    · intro a ha
      exact h.outer a (by rw [hannouncements]; exact ha)
  ends t status outer hannouncements h := by
    have houter : ∀ a ∈ outer, a.waiting = [] := fun a ha =>
      h.outer a (by rw [hannouncements]; exact ha)
    refine ⟨h.inTime, ?_, ?_⟩
    · intro a ha hne
      exact absurd (houter a (List.mem_of_head? ha)) hne
    · exact fun a ha => houter a (List.mem_of_mem_tail ha)

theorem punctual_start : ({} : Talk).Punctual := ⟨nofun, nofun, nofun⟩

/-! ## What listeners end up with -/

/-- When nobody is being told any more after an event that changed the status, a listener that was
registered whenever an event was fired has been told the error that is shown now, and the status
that is shown now if and only if it was told in time. What is told agrees with itself, an error with
the status of a failure and with no other, if and only if the status told and the one shown at that
moment are both those of a failure or neither is. Everybody is told in time if events are fired only
when nobody is still to be told. -/
theorem last_told_is_current_iff (before during : List Move) (e : StatusEvent) (listener : String)
    (hbecome : (({} : Talk).run before).status.canBecome e.target = true)
    (hchanges : (({} : Talk).run before).status ≠ e.target)
    (hregistered : (({} : Talk).run before).FiresWhen (listener ∈ ·.board.listeners)
      (.call (.fire e) :: during))
    (hover : (({} : Talk).run (before ++ .call (.fire e) :: during)).announcements = []) :
    let t := ({} : Talk).run (before ++ .call (.fire e) :: during)
    (∃ d ∈ t.told, t.lastTold? listener = some d ∧ d.shown = t.indicator ∧
        d.notice.error = t.indicator.error ∧
        (⟨d.notice.status, d.notice.error⟩ = t.indicator ↔ d.InTime)) ∧
      t.told.map (·.notice) = t.board.notices ∧
      (∀ d ∈ t.told, (d.notice.error.isSome = true ↔ d.notice.status = .error) ↔
        (d.notice.status = .error ↔ d.shown.status = .error)) ∧
      (({} : Talk).FiresWhen AllTold (before ++ .call (.fire e) :: during) →
        ∀ d ∈ t.told, d.InTime) := by
  intro t
  have hnoted : t.Noted := noted_run _
  have hinformed : Informed listener t := by
    have hsound := sound_start.run before
    have hfired : Informed listener ((({} : Talk).run before).after (.call (.fire e))) := by
      change Informed listener ((({} : Talk).run before).call (.fire e)).1
      rw [fire_of_ne hbecome hchanges]
      exact (keeps_informed listener).goOn (informed_announces (hregistered.1 rfl) _)
    have hrun := (keeps_informed listener).run (hsound.after _) hfired hregistered.2
    rwa [← run_cons, ← run_append] at hrun
  refine ⟨?_, hnoted.notices, fun d => hnoted.agrees_iff, fun hall => ?_⟩
  · obtain ⟨a, ha, -⟩ | ⟨d, hlast, hshown⟩ := hinformed
    · rw [hover] at ha
      cases ha
    · have hmem := mem_of_lastTold? hlast
      have herror : d.notice.error = t.indicator.error := hshown ▸ (hnoted.errors d hmem).1
      refine ⟨d, hmem, hlast, hshown, herror, fun heq => ?_, fun hintime => ?_⟩
      · exact (congrArg (·.status) heq).trans (congrArg (·.status) hshown.symm)
      · exact Indicator.ext (hintime.trans (congrArg (·.status) hshown)) herror
  · exact (keeps_punctual.run sound_start punctual_start hall).inTime

/-- A listener reports an edit whenever it is told, which changes a failure only. -/
def editing : String → Board.Reaction
  | "editing" => .fire .edit
  | _ => .nothing

/-- The listener that edits was registered last, and an edit has been told to both. -/
def politeCalls : List Move :=
  [.call (.subscribe "plain"), .call (.subscribe "editing"), .call (.fire .edit), .returns,
    .call (.fire .edit), .returns]

/-- After a failure nobody waits when the edit is reported. -/
def politeMoves : List Move :=
  [.returns, .call (.fire .edit), .returns, .call (.fire .edit), .returns, .returns]

theorem polite_edit_overtakes_nobody :
    let t := ({} : Talk).run (politeCalls ++ .call (.fire (.failed "boom")) :: politeMoves)
    t.indicator = ⟨.pending, none⟩ ∧
      ∃ d ∈ t.told, t.lastTold? "plain" = some d ∧
        ⟨d.notice.status, d.notice.error⟩ = t.indicator := by
  obtain ⟨⟨d, hd, hlast, -, -, hcurrent⟩, -, -, hall⟩ :=
    last_told_is_current_iff politeCalls politeMoves (.failed "boom") "plain"
      (by decide) (by decide) (by decide) (by decide)
  exact ⟨by decide, d, hd, hlast, hcurrent.2 (hall (by decide) d hd)⟩

/-- The listener that edits was registered first. -/
def hastyCalls : List Move :=
  [.call (.subscribe "editing"), .call (.subscribe "plain"), .call (.fire .edit),
    .call (.fire .edit), .returns, .returns]

/-- After a failure the other listener waits when the edit is reported. -/
def hastyMoves : List Move :=
  [.call (.fire .edit), .call (.fire .edit), .returns, .returns, .returns, .returns]

/-- A listener that is registered all the time is told of a failure last, and without an error,
while unsaved edits are shown. -/
theorem overtaken_listener_is_left_behind :
    let before := ({} : Talk).run hastyCalls
    let t := before.run (.call (.fire (.failed "boom")) :: hastyMoves)
    before.announcements = [] ∧ before.status.canBecome .error = true ∧ before.status ≠ .error ∧
      before.FiresWhen ("plain" ∈ ·.board.listeners)
        (.call (.fire (.failed "boom")) :: hastyMoves) ∧
      t.announcements = [] ∧ t.board.listeners = ["editing", "plain"] ∧
      t.board = (before.board.fire editing 3 (.failed "boom")).1 ∧
      t.indicator = ⟨.pending, none⟩ ∧
      (t.lastTold? "plain").map (·.notice) = some ⟨"plain", .error, none⟩ := by
  decide

end Talk

end DeferredSave
