import DeferredSave.Proofs.Course.Stretch

/-!
# Listeners that do nothing

What listeners do when they are told is looked up by their names. Where no listener of an engine has
anything to do, it makes no difference what listeners do in general: its turns are those of an
engine whose listeners are silent (`Engine.turn_of_passive`).
-/

namespace DeferredSave.Engine

variable {ω : Type} {acting : Acting ω} {g g' : Engine ω}

/-- No listener of the engine does anything. -/
def Passive (g : Engine ω) : Prop :=
  ∀ listener ∈ g.board.listeners, g.replies.lookup listener = none

theorem Passive.of_eq (h : g.Passive) (hlisteners : g'.board.listeners = g.board.listeners)
    (hreplies : g'.replies = g.replies) : g'.Passive := by
  unfold Passive
  rw [hlisteners, hreplies]
  exact h

/-! ## Telling -/

/-- Of listeners that do nothing it is noted only that they were told. -/
theorem foldl_tell (acting : Acting ω) (status : Status) {told : List String}
    (h : ∀ listener ∈ told, g.replies.lookup listener = none) :
    told.foldl (tell acting status) g =
      { g with board := told.foldl (fun b listener => b.tell listener status) g.board } := by
  induction told generalizing g with
  | nil => rfl
  | cons listener told ih =>
    have hnone : g.replies.lookup listener = none := h listener List.mem_cons_self
    have hone : g.tell acting status listener =
        { g with board := g.board.tell listener status } := by
      unfold tell
      dsimp only
      rw [hnone]
    rw [List.foldl_cons, hone]
    exact ih (g := { g with board := g.board.tell listener status })
      fun l hl => h l (List.mem_cons_of_mem _ hl)

theorem fire_of_passive (acting : Acting ω) (h : g.Passive) (e : StatusEvent) :
    g.fire acting e = g.fire silent e := by
  unfold fire
  cases hshift : g.board.shift e with
  | error t => rfl
  | ok r =>
    obtain ⟨board, told⟩ := r
    -- those who have to be told are among the listeners
    have htold : ∀ listener ∈ told, g.replies.lookup listener = none := by
      unfold Board.shift Except.map at hshift
      split at hshift
      · cases hshift
      · cases hshift
        intro listener hlistener
        split at hlistener
        · cases hlistener
        · exact h listener hlistener
    dsimp only
    rw [foldl_tell acting (g := { g with board }) e.target htold,
      foldl_tell silent (g := { g with board }) e.target htold]

/-- Silent listeners are told, and nothing else happens. -/
theorem Told.of_silent {status : Status} (h : Told silent status g g') :
    ∃ notices, g' = { g with board := { g.board with notices } } := by
  obtain ⟨told, rfl⟩ := h
  -- one listener after the other notes what it was told
  induction told generalizing g with
  | nil => exact ⟨_, rfl⟩
  | cons listener told ih =>
    have hone : g.tell silent status listener =
        { g with board := g.board.tell listener status } := by
      unfold tell
      dsimp only
      split
      · split <;> rfl
      · rfl
    rw [List.foldl_cons, hone]
    exact ih

theorem Passive.told {status : Status} (h : g.Passive) (htold : Told silent status g g') :
    g'.Passive := by
  obtain ⟨notices, rfl⟩ := htold.of_silent
  exact h.of_eq rfl rfl

/-- After an event of the indicator, its listeners do nothing still. -/
theorem Passive.fire (h : g.Passive) {e : StatusEvent} {r : Except InvalidTransition Unit}
    (hfire : g.fire silent e = (g', r)) : g'.Passive := by
  rcases fire_cases silent g e with ⟨-, heq⟩ | ⟨-, g₁, htold, heq⟩
  · cases heq.symm.trans hfire
    exact h
  · cases heq.symm.trans hfire
    have hshown : (g.shows e).Passive := h.of_eq rfl rfl
    exact hshown.told htold

/-! ## Stretches -/

section

variable (acting : Acting ω) (h : g.Passive)
include h

theorem sendBatch_of_passive : g.sendBatch acting = g.sendBatch silent := by
  have hedited : Passive { g with edited := false } := h
  unfold sendBatch
  dsimp only
  rw [fire_of_passive acting hedited, fire_of_passive acting hedited]

theorem endRound_of_passive : g.endRound acting = g.endRound silent := by
  have hdone : Passive { g with requested := false } := h
  unfold endRound
  dsimp only
  rw [sendBatch_of_passive acting hdone]

theorem updated_of_passive (answer : Except Failure (List Setting)) :
    g.updated acting answer = g.updated silent answer := by
  unfold updated
  split
  · split
    · exact endRound_of_passive acting h
    · split
      · rfl
      · rename_i f
        rw [fire_of_passive acting h]
        cases hfire : g.fire silent (.failed (saveError f)) with
        | mk g' r =>
          cases r with
          | error t => rfl
          | ok u => exact endRound_of_passive acting (h.fire hfire)
  · rfl

theorem showSaved_of_passive : g.showSaved acting = g.showSaved silent := by
  unfold showSaved
  rw [fire_of_passive acting h, fire_of_passive acting h]
  split
  · cases hfire : g.fire silent .saved with
    | mk g' r =>
      cases r with
      | error t => rfl
      | ok u =>
        have hsaved : g'.Passive := h.fire hfire
        have hshown : Passive { g' with shown := g'.shown.arm g'.now } := hsaved
        exact endRound_of_passive acting hshown
  · cases hfire : g.fire silent .idle with
    | mk g' r =>
      cases r with
      | error t => rfl
      | ok u => exact endRound_of_passive acting (h.fire hfire)

theorem confirm_of_passive (batch : Batch) (rows : List Setting) (installed : Bool) :
    g.confirm acting batch rows installed = g.confirm silent batch rows installed := by
  -- the catalog makes no difference to the listeners
  let g₁ := if installed then g else { g with catalog := g.catalog.withUpdates rows }
  have hcatalog : g₁.Passive := by
    unfold g₁
    split <;> exact h
  unfold confirm
  dsimp only
  split
  · rfl
  · rename_i edits dropped hdiscard
    have hdone : Passive { g₁ with edits } := hcatalog
    split
    · exact showSaved_of_passive acting hdone
    · exact endRound_of_passive acting hdone

theorem reloaded_of_passive (answer : Except Failure Categories) :
    g.reloaded acting answer = g.reloaded silent answer := by
  unfold reloaded
  split
  · rename_i batch rows load hflight
    have hload {g₁ : Engine ω} {r : Except Failure Bool}
        (hfinish : g.finishLoad load answer = (g₁, r)) : g₁.Passive := by
      have heq : g.withLoad load answer = g₁ :=
        congrArg Prod.fst ((g.finishLoad_eq load answer).symm.trans hfinish)
      exact heq ▸ h
    split
    · rename_i g₁ installed hfinish
      split
      · exact endRound_of_passive acting (hload hfinish)
      · exact confirm_of_passive acting (hload hfinish) batch rows installed
    · rename_i g₁ f hfinish
      split
      · rfl
      · split
        · exact endRound_of_passive acting (hload hfinish)
        · exact confirm_of_passive acting (hload hfinish) batch rows false
  · rfl

theorem shownOver_of_passive : g.shownOver acting = g.shownOver silent := by
  unfold shownOver
  rw [fire_of_passive acting h]

/-- The turns of an engine do not depend on what listeners do that it does not have. -/
theorem turn_of_passive (t : Turn) : g.turn acting t = g.turn silent t := by
  cases t with
  | quietOver | loaded => rfl
  | shownOver =>
    have hshown : Passive { g with shown := g.shown.cancel } := h
    exact shownOver_of_passive acting hshown
  | takeOff =>
    have hdone : Passive { g with requested := false } := h
    exact sendBatch_of_passive acting hdone
  | updated answer => exact updated_of_passive acting h answer
  | reloaded answer => exact reloaded_of_passive acting h answer

end

end DeferredSave.Engine
