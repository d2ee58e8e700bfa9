import DeferredSave.Proofs.Course.Breaking
import DeferredSave.Proofs.Course.Passive
import DeferredSave.Proofs.Course.Traffic

/-!
# A flight that nobody disturbs

Where listeners do nothing, each answer that a flight waits for makes it ask for one thing more, or
end (`Engine.Passes`). It needs four answers at most, and a failure ends it exactly if it is one of
the load after a save that is not foreseen, or if a save is still shown when the flight takes off
(`Course.passes_after`). For this the indicator has to show that there are edits, or a save, as long
as there are any (`Engine.Marked`).
-/

namespace DeferredSave

variable {ω : Type} {acting : Engine.Acting ω} {g g' : Engine ω} {sent : List Batch}
  {admitted : Engine ω → Call ω → Prop}

namespace Engine

/-! ## Edits are shown -/

/-- If there are edits the indicator shows them, or a save. -/
def Marked (g : Engine ω) : Prop :=
  g.edits.isEmpty = false → g.showsEdits = true ∨ g.status = .saving

theorem Marked.of_isEmpty (h : g.edits.isEmpty = true) : g.Marked := by
  intro hsome
  cases h.symm.trans hsome

theorem marked_of_shows (h : g.showsEdits = true) : g.Marked := fun _ => .inl h

/-- Edits may be dropped as long as the indicator stays. -/
theorem Marked.of_sublist (h : g.Marked) (hsub : g'.edits.edits.Sublist g.edits.edits)
    (hstatus : g'.status = g.status) : g'.Marked := by
  intro hsome
  obtain ⟨e, he⟩ := List.exists_mem_of_ne_nil _ (List.isEmpty_eq_false_iff.1 hsome)
  unfold showsEdits
  rw [hstatus]
  exact h (isEmpty_of_mem (hsub.subset he))

theorem Marked.of_eq (h : g.Marked) (hedits : g'.edits = g.edits) (hstatus : g'.status = g.status) :
    g'.Marked :=
  h.of_sublist (hedits ▸ List.Sublist.refl _) hstatus

theorem marked_abiding : Abiding (fun _ _ => True) fun g : Engine ω => g.Marked where
  unspoken := ⟨fun _ _ _ h => h, fun _ _ h => h⟩
  edit := fun _ _ _ _ _ => marked_of_shows rfl
  quiet := fun _ h => h
  drop := fun {g} keys? _ h => h.of_sublist (g.edits.discard_sublist keys?).1 rfl
  rest := fun _ _ hempty _ => .of_isEmpty hempty
  close := fun h => h
  subscribe := fun _ _ h => h
  unsubscribe := fun {g} handle h => h.of_eq rfl (status_unsubscribe g handle)
  request := fun _ h => h
  launch := fun _ h => h
  load := fun h => h

end Engine

theorem Listening.marked (h : Listening admitted acting) :
    Keeps (fun g : Engine ω => g.Marked) acting :=
  Engine.marked_abiding.keeps h.any

namespace Engine

section Marking

variable (hlisten : Listening admitted acting)
include hlisten

theorem Marked.sendBatch (h : g.Marked) : (g.sendBatch acting).Marked := by
  rcases sendBatch_cases acting g with
    ⟨hempty, -, g', htold, heq⟩ | ⟨-, -, g', htold, heq⟩ | ⟨-, failure?, heq⟩
  · have hidle : ({ g with edited := false }.shows .idle).Marked := .of_isEmpty hempty
    have htold : g'.Marked := htold.keeps hlisten.marked hidle
    exact heq ▸ htold
  · have hsaving : ({ g with edited := false }.shows .saving).Marked := fun _ => .inr rfl
    have htold : g'.Marked := htold.keeps hlisten.marked hsaving
    exact heq ▸ htold
  · exact heq ▸ h

theorem Marked.endRound (h : g.Marked) : (g.endRound acting).Marked := by
  have hdone : Marked { g with requested := false } := h
  rcases endRound_cases acting g with ⟨-, heq⟩ | ⟨-, heq⟩
  · exact heq ▸ hdone.sendBatch hlisten
  · exact heq ▸ hdone

theorem Marked.updated (h : g.Marked) (answer : Except Failure (List Setting)) :
    (g.updated acting answer).Marked := by
  cases hflight : g.flight with
  | saving batch =>
    rcases updated_cases acting hflight answer with
      ⟨-, heq⟩ | ⟨-, rows, -, heq⟩ | ⟨-, f, -, ⟨-, failure?, heq⟩ | ⟨g', htold, heq⟩⟩
    · exact heq ▸ h.endRound hlisten
    · exact heq ▸ h
    · exact heq ▸ h
    · have hfailed : (g.shows (.failed (saveError f))).Marked := marked_of_shows rfl
      exact heq ▸ (htold.keeps hlisten.marked hfailed).endRound hlisten
  | none | waiting | reloading => simpa [Engine.updated, hflight] using h

theorem showSaved_marked (hempty : g.edits.isEmpty = true) : (g.showSaved acting).Marked := by
  have hshows (e : StatusEvent) : (g.shows e).Marked := .of_isEmpty hempty
  rcases showSaved_cases acting g with ⟨-, g', htold, heq⟩ | ⟨-, g', htold, heq⟩
  · have htold : g'.Marked := htold.keeps hlisten.marked (hshows .saved)
    have hshown : Marked { g' with shown := g'.shown.arm g'.now } := htold
    exact heq ▸ hshown.endRound hlisten
  · exact heq ▸ (htold.keeps hlisten.marked (hshows .idle)).endRound hlisten

theorem Marked.confirm (h : g.Marked) (batch : Batch) (rows : List Setting) (installed : Bool) :
    (g.confirm acting batch rows installed).Marked := by
  have hdone : (g.confirmed batch rows installed).Marked :=
    h.of_sublist (g.edits.discardFlushed_sublist batch).1 rfl
  rcases confirm_cases acting g batch rows installed with
    ⟨failure, -, heq⟩ | ⟨hempty, heq⟩ | ⟨-, heq⟩
  · exact heq ▸ hdone
  · exact heq ▸ showSaved_marked hlisten hempty
  · exact heq ▸ hdone.endRound hlisten

theorem Marked.reloaded (h : g.Marked) (answer : Except Failure Categories) :
    (g.reloaded acting answer).Marked := by
  cases hflight : g.flight with
  | reloading batch rows load =>
    have hload : (g.withLoad load answer).Marked := h
    rcases reloaded_cases acting hflight answer with
      ⟨-, heq⟩ | ⟨f, -, -, heq⟩ | ⟨-, -, heq⟩
    · exact heq ▸ hload.endRound hlisten
    · exact heq ▸ hload
    · exact heq ▸ hload.confirm hlisten batch rows _
  | none | waiting | saving => simpa [Engine.reloaded, hflight] using h

theorem Marked.shownOver (h : g.Marked) : (g.shownOver acting).Marked := by
  rcases shownOver_cases acting g with heq | ⟨-, hsaved, htold⟩
  · rwa [heq]
  · -- where a save is shown as done, there are no edits
    have hempty : g.edits.isEmpty = true := by
      apply Bool.of_not_eq_false
      intro hsome
      obtain hshows | hs := h hsome
      · obtain hs | hs := showsEdits_iff.1 hshows <;> cases hsaved.symm.trans hs
      · cases hsaved.symm.trans hs
    have hidle : (g.shows .idle).Marked := .of_isEmpty hempty
    exact htold.keeps hlisten.marked hidle

theorem Marked.turn (h : g.Marked) (t : Turn) : (g.turn acting t).Marked := by
  cases t with
  | quietOver =>
    change (Engine.quietOver _).Marked
    rcases quietOver_cases { g with quiet := g.quiet.cancel } with
      ⟨-, heq⟩ | ⟨-, -, heq⟩ | ⟨-, -, heq⟩ <;> rw [heq] <;> exact h
  | shownOver =>
    have hshown : Marked { g with shown := g.shown.cancel } := h
    exact hshown.shownOver hlisten
  | takeOff =>
    have hdone : Marked { g with requested := false } := h
    exact hdone.sendBatch hlisten
  | updated answer => exact h.updated hlisten answer
  | reloaded answer => exact h.reloaded hlisten answer
  | loaded load answer =>
    rw [turn_loaded]
    exact h

theorem Marked.after (h : g.Marked) (ev : Event ω) : (g.after acting ev).Marked := by
  cases ev with
  | call c => exact marked_abiding.call hlisten.marked trivial h
  | turn t => exact h.turn hlisten t
  | wait seconds => exact h

end Marking

end Engine

theorem Course.Reachable.marked {events : Course ω → Event ω → Prop} {c : Course ω}
    (h : c.Reachable events (Listening admitted)) : c.engine.Marked := by
  obtain ⟨metas, rules, quietPeriod, shownFor, hleads⟩ := h
  induction hleads with
  | refl => exact .of_isEmpty rfl
  | @step c acting ev _ hlisten _ _ ih =>
    have hafter : (c.engine.after acting ev).Marked := ih.after hlisten ev
    exact hafter

/-! ## What a flight asks for next -/

/-- What a flight asks for when it has come to where it is; without a flight, that it is over. -/
def Flight.effect (failure? : Option Failure) : Flight → Effect ω
  | none => .landed failure?
  | waiting => .takeOff
  | saving batch => .update batch
  | reloading .. => .reload

namespace Engine

/-- The answers that are needed for a further round. -/
def further (g : Engine ω) : Nat := if g.requested && g.edited then 2 else 0

/-- How many answers a flight needs at most until it is over. -/
def left (g : Engine ω) : Nat :=
  match g.flight with
  | .none => 0
  | .waiting => 3
  | .saving _ => g.further + 2
  | .reloading .. => g.further + 1

/-- The engine `g'` has come about from `g` without anybody calling. -/
structure Calm (g g' : Engine ω) : Prop where
  closed : g'.closed = g.closed
  quiet : g.quiet.armed = false → g'.quiet.armed = false
  replies : g'.replies = g.replies
  listeners : g'.board.listeners = g.board.listeners

theorem Calm.of_eq (hclosed : g'.closed = g.closed) (hquiet : g'.quiet = g.quiet)
    (hreplies : g'.replies = g.replies) (hlisteners : g'.board.listeners = g.board.listeners) :
    Calm g g' :=
  ⟨hclosed, fun h => hquiet ▸ h, hreplies, hlisteners⟩

theorem Calm.trans {g₀ : Engine ω} (h : Calm g₀ g) (h' : Calm g g') : Calm g₀ g' where
  closed := h'.closed.trans h.closed
  quiet := h'.quiet ∘ h.quiet
  replies := h'.replies.trans h.replies
  listeners := h'.listeners.trans h.listeners

theorem Calm.passive (h : Calm g g') (hpassive : g.Passive) : g'.Passive :=
  hpassive.of_eq h.listeners h.replies

/-- The flight of `g` has come to the next place, where it asks for one thing and needs at most `n`
answers more. Unless it is over there is no failure. -/
structure Passes (n : Nat) (failure? : Option Failure) (g g' : Engine ω) : Prop
    extends Calm g g' where
  outbox : g'.outbox = g.outbox ++ [g'.flight.effect failure?]
  left : g'.left ≤ n
  landed : failure? ≠ none → g'.flight = .none

theorem Passes.of_calm {g₀ : Engine ω} {n : Nat} {failure? : Option Failure}
    (h : Passes n failure? g g') (hcalm : Calm g₀ g) (houtbox : g.outbox = g₀.outbox) :
    Passes n failure? g₀ g' where
  toCalm := hcalm.trans h.toCalm
  outbox := houtbox ▸ h.outbox
  left := h.left
  landed := h.landed

theorem Passes.mono {n m : Nat} {failure? : Option Failure} (h : Passes n failure? g g')
    (hle : n ≤ m) : Passes m failure? g g' :=
  { h with left := Nat.le_trans h.left hle }

/-- The engine `g'` has come about from `g` with the flight where it was. -/
structure Rests (g g' : Engine ω) : Prop extends Calm g g' where
  outbox : g'.outbox = g.outbox
  flight : g'.flight = g.flight
  left : g'.left = g.left
  stalled : g'.Stalled ↔ g.Stalled

theorem Rests.refl (g : Engine ω) : Rests g g := ⟨.of_eq rfl rfl rfl rfl, rfl, rfl, rfl, .rfl⟩

theorem passes_land (g : Engine ω) (n : Nat) (failure? : Option Failure) :
    Passes n failure? g (g.land failure?) :=
  ⟨.of_eq rfl rfl rfl rfl, rfl, Nat.zero_le n, fun _ => rfl⟩

/-- A flight that takes a batch needs two answers to it, and it fails exactly if the indicator does
not allow it to. -/
theorem sendBatch_passes (g : Engine ω) :
    ∃ failure?, Passes 2 failure? g (g.sendBatch silent) ∧
      (failure? = none ↔
        g.status.canBecome (if g.edits.isEmpty then .idle else .saving) = true) := by
  have hstart : Calm g { g with edited := false } := .of_eq rfl rfl rfl rfl
  unfold sendBatch
  dsimp only
  rw [EditBuffer.snapshot_isEmpty]
  cases hempty : g.edits.isEmpty with
  | true =>
    rw [if_pos rfl, if_pos rfl]
    rcases fire_cases silent { g with edited := false } .idle with
      ⟨hrefused, hfire⟩ | ⟨hallowed, g', htold, hfire⟩
    · rw [hfire]
      refine ⟨_, (passes_land _ 2 _).of_calm hstart rfl, nofun, fun hallowed => ?_⟩
      cases hallowed.symm.trans hrefused
    · obtain ⟨notices, rfl⟩ := htold.of_silent
      rw [hfire]
      exact ⟨none, (passes_land _ 2 none).of_calm (.of_eq rfl rfl rfl rfl) rfl, fun _ => hallowed,
        fun _ => rfl⟩
  | false =>
    rw [if_neg nofun, if_neg nofun]
    rcases fire_cases silent { g with edited := false } .saving with
      ⟨hrefused, hfire⟩ | ⟨hallowed, g', htold, hfire⟩
    · rw [hfire]
      refine ⟨_, (passes_land _ 2 _).of_calm hstart rfl, nofun, fun hallowed => ?_⟩
      cases hallowed.symm.trans hrefused
    · obtain ⟨notices, rfl⟩ := htold.of_silent
      rw [hfire]
      refine ⟨none, ⟨.of_eq rfl rfl rfl rfl, rfl, ?_, nofun⟩, fun _ => hallowed, fun _ => rfl⟩
      simp [left, further, emit, shows]

/-- A flight that goes round needs the answers to one batch more. -/
theorem endRound_passes (g : Engine ω) :
    ∃ failure?, Passes g.further failure? g (g.endRound silent) ∧
      ((g.goesAround = true → g.status.canBecome .saving = true) → failure? = none) := by
  have hstart : Calm g { g with requested := false } := .of_eq rfl rfl rfl rfl
  rcases endRound_cases silent g with ⟨hagain, heq⟩ | ⟨-, heq⟩
  · obtain ⟨failure?, hpasses, hiff⟩ := sendBatch_passes { g with requested := false }
    obtain ⟨hrequested, hedited, hsome, -⟩ := goesAround_iff.1 hagain
    have hfurther : g.further = 2 := by simp [further, hrequested, hedited]
    rw [heq, hfurther]
    refine ⟨failure?, hpasses.of_calm hstart rfl, fun hallows => hiff.2 ?_⟩
    rw [if_neg (by simp [hsome])]
    exact hallows hagain
  · rw [heq]
    exact ⟨none, (passes_land _ _ none).of_calm hstart rfl, fun _ => rfl⟩

/-- A flight may end its round after silent listeners were told. -/
theorem endRound_passes_of_told {e : StatusEvent} (htold : Told silent e.target (g.shows e) g')
    (shown : Timer) :
    ∃ failure?, Passes g.further failure? g (endRound silent { g' with shown }) ∧
      ((g.goesAround = true → e.target.canBecome .saving = true) → failure? = none) := by
  obtain ⟨notices, rfl⟩ := htold.of_silent
  obtain ⟨failure?, hpasses, hnone⟩ :=
    endRound_passes { g.shows e with board := { (g.shows e).board with notices }, shown }
  exact ⟨failure?, hpasses.of_calm (.of_eq rfl rfl rfl rfl) rfl, hnone⟩

theorem goesAround_of_isEmpty (h : g.edits.isEmpty = true) : g.goesAround = false := by
  simp [goesAround, h]

theorem showSaved_passes (g : Engine ω) :
    ∃ failure?, Passes g.further failure? g (g.showSaved silent) ∧
      (g.edits.isEmpty = true → failure? = none) := by
  -- without edits there is nothing to go round for
  have hstays {P : Prop} (hempty : g.edits.isEmpty = true) (hagain : g.goesAround = true) : P := by
    cases hagain.symm.trans (goesAround_of_isEmpty hempty)
  rcases showSaved_cases silent g with ⟨-, g', htold, heq⟩ | ⟨-, g', htold, heq⟩
  · obtain ⟨failure?, hpasses, hnone⟩ := endRound_passes_of_told (e := .saved) htold
      (g'.shown.arm g'.now)
    rw [heq]
    exact ⟨failure?, hpasses, fun hempty => hnone (hstays hempty)⟩
  · obtain ⟨failure?, hpasses, hnone⟩ := endRound_passes_of_told (e := .idle) htold g'.shown
    rw [heq]
    exact ⟨failure?, hpasses, fun hempty => hnone (hstays hempty)⟩

theorem confirm_passes (sent : List Batch) (g : Engine ω) (batch : Batch) (rows : List Setting)
    (installed : Bool) :
    ∃ failure?, Passes g.further failure? g (g.confirm silent batch rows installed) ∧
      (Ledger sent g → g.Aloft → g.flight.batch? = some batch → failure? = none) := by
  have hstart : Calm g (g.confirmed batch rows installed) := .of_eq rfl rfl rfl rfl
  rcases confirm_cases silent g batch rows installed with
    ⟨failure, hmismatch, heq⟩ | ⟨hempty, heq⟩ | ⟨hsome, heq⟩
  · rw [heq]
    refine ⟨_, (passes_land _ _ _).of_calm hstart rfl, fun hledger _ hbatch => ?_⟩
    -- the batch under way was sent, and what was sent has its revisions
    obtain ⟨dropped, hdropped⟩ :=
      (hledger.knows batch (hledger.flight batch hbatch)).discardFlushed_ok
    cases hmismatch.symm.trans hdropped
  · obtain ⟨failure?, hpasses, hnone⟩ := showSaved_passes (g.confirmed batch rows installed)
    rw [heq]
    exact ⟨failure?, hpasses.of_calm hstart rfl, fun _ _ _ => hnone hempty⟩
  · obtain ⟨failure?, hpasses, hnone⟩ := endRound_passes (g.confirmed batch rows installed)
    rw [heq]
    refine ⟨failure?, hpasses.of_calm hstart rfl, fun hledger haloft hbatch => hnone fun _ => ?_⟩
    have hpending : g.status = .pending :=
      (haloft batch hbatch).pending_of_left hledger hbatch hsome
    change g.status.canBecome .saving = true
    rw [hpending]
    rfl

theorem updated_passes {batch : Batch} (hflight : g.flight = .saving batch)
    (answer : Except Failure (List Setting)) :
    ∃ failure?, Passes (g.further + 1) failure? g (g.updated silent answer) ∧
      (g.closed = false → g.Aloft → failure? = none) := by
  rcases updated_cases silent hflight answer with
    ⟨hclosed, heq⟩ | ⟨-, rows, -, heq⟩ | ⟨-, f, -, ⟨hrefused, failure?, heq⟩ | ⟨g', htold, heq⟩⟩
  · obtain ⟨failure?, hpasses, -⟩ := endRound_passes g
    rw [heq]
    refine ⟨failure?, hpasses.mono (Nat.le_succ _), fun hopen => ?_⟩
    cases hclosed.symm.trans hopen
  · rw [heq]
    exact ⟨none, ⟨.of_eq rfl rfl rfl rfl, rfl, Nat.le_refl _, nofun⟩, fun _ _ => rfl⟩
  · rw [heq]
    refine ⟨failure?, passes_land g _ failure?, fun _ haloft => ?_⟩
    -- with a batch under way a failure can be shown
    obtain hs | ⟨hs, -⟩ := haloft batch (by rw [hflight]; rfl) <;> rw [hs] at hrefused <;>
      cases hrefused
  · obtain ⟨failure?, hpasses, hnone⟩ :=
      endRound_passes_of_told (e := .failed (saveError f)) htold g'.shown
    rw [heq]
    exact ⟨failure?, hpasses.mono (Nat.le_succ _), fun _ _ => hnone fun _ => rfl⟩

/-- The load after a save breaks the flight off if it fails in a way that is not foreseen. -/
theorem reloaded_passes (sent : List Batch) {batch : Batch} {rows : List Setting} {load : Nat}
    (hflight : g.flight = .reloading batch rows load) (answer : Except Failure Categories) :
    ∃ failure?, Passes g.further failure? g (g.reloaded silent answer) ∧
      (g.closed = false → Ledger sent g → g.Aloft →
        (failure? = none ↔ (Event.turn (.reloaded answer) : Event ω).Foreseen)) := by
  have hload : Calm g (g.withLoad load answer) := .of_eq rfl rfl rfl rfl
  rcases reloaded_cases silent hflight answer with
    ⟨hclosed, heq⟩ | ⟨f, rfl, hfetch, heq⟩ | ⟨-, hanswer, heq⟩
  · obtain ⟨failure?, hpasses, -⟩ := endRound_passes (g.withLoad load answer)
    rw [heq]
    refine ⟨failure?, hpasses.of_calm hload rfl, fun hopen => ?_⟩
    cases hclosed.symm.trans hopen
  · rw [heq]
    refine ⟨_, (passes_land _ _ _).of_calm hload rfl, fun _ _ _ => ⟨nofun, fun hforeseen => ?_⟩⟩
    cases hfetch.symm.trans hforeseen
  · obtain ⟨failure?, hpasses, hnone⟩ :=
      confirm_passes sent (g.withLoad load answer) batch rows (g.installs load answer)
    have hforeseen : (Event.turn (.reloaded answer) : Event ω).Foreseen := by
      cases answer with
      | ok categories => trivial
      | error f => exact hanswer f rfl
    have hbatch : g.flight.batch? = some batch := by rw [hflight]; rfl
    rw [heq]
    refine ⟨failure?, hpasses.of_calm hload rfl, fun _ hledger haloft => ?_⟩
    exact iff_of_true (hnone (hledger.withLoad load answer) haloft hbatch) hforeseen

/-- Where there is no batch, a flight can take one unless a save is shown. -/
theorem Marked.canBecome_iff (h : g.Marked) :
    g.status.canBecome (if g.edits.isEmpty then .idle else .saving) = true ↔
      g.status ≠ .saving := by
  cases hempty : g.edits.isEmpty with
  | true => cases g.status <;> simp [Status.canBecome]
  | false =>
    obtain hshows | hs := h hempty
    · obtain hs | hs := showsEdits_iff.1 hshows <;> simp [hs, Status.canBecome]
    · simp [hs, Status.canBecome]

end Engine

namespace Course

/-- An answer takes the flight of an open engine one place further, unless it is a failure of the
load after a save that is not foreseen, or the flight would take off with a save still shown. -/
theorem passes_after {c : Course ω} {ev : Event ω}
    (hc : c.Reachable (fun _ _ => True) (Listening fun _ _ => True)) (hready : c.Ready ev)
    (hserves : ev.serves = true) :
    ∃ n failure?, n < c.engine.left ∧
      c.engine.Passes n failure? (c.engine.after .silent ev) ∧
      (c.engine.closed = false → (failure? = none ↔ ev.Foreseen ∧ ¬ c.engine.Stalled)) := by
  have hledger : Ledger c.sent c.engine := hc.sound.ledger
  cases ev with
  | call | wait => cases hserves
  | turn t =>
    cases t with
    | quietOver | shownOver | loaded => cases hserves
    | takeOff =>
      have hwaiting : c.engine.flight = .waiting := hready
      obtain ⟨failure?, hpasses, hiff⟩ :=
        Engine.sendBatch_passes { c.engine with requested := false }
      refine ⟨2, failure?, ?_, hpasses.of_calm (.of_eq rfl rfl rfl rfl) rfl, fun _ => ?_⟩
      · rw [Engine.left, hwaiting]
        exact Nat.lt_succ_self 2
      · have hstalled : c.engine.Stalled ↔ c.engine.status = .saving :=
          and_iff_right (by rw [hwaiting]; rfl)
        exact (hiff.trans hc.marked.canBecome_iff).trans
          ((not_congr hstalled).symm.trans (and_iff_right trivial).symm)
    | updated answer =>
      obtain ⟨batch, hflight⟩ := hready
      obtain ⟨failure?, hpasses, hnone⟩ := Engine.updated_passes hflight answer
      refine ⟨_, failure?, ?_, hpasses, fun hopen => ?_⟩
      · rw [Engine.left, hflight]
        exact Nat.lt_succ_self _
      · exact iff_of_true (hnone hopen hc.aloft)
          ⟨trivial, Engine.not_stalled_of_batch (by rw [hflight]; rfl)⟩
    | reloaded answer =>
      obtain ⟨batch, rows, load, hflight⟩ := hready
      obtain ⟨failure?, hpasses, hiff⟩ := Engine.reloaded_passes c.sent hflight answer
      refine ⟨_, failure?, ?_, hpasses, fun hopen => ?_⟩
      · rw [Engine.left, hflight]
        exact Nat.lt_succ_self _
      · have hstalled : ¬ c.engine.Stalled := Engine.not_stalled_of_batch (by rw [hflight]; rfl)
        exact (hiff hopen hledger hc.aloft).trans (and_iff_left hstalled).symm

/-- What the engine does by itself besides leaves the flight alone, and asks for nothing. -/
theorem rests_after (c : Course ω) {ev : Event ω} (hcall : ∀ call, ev ≠ .call call)
    (hserves : ev.serves = false) (hquiet : ev = .turn .quietOver → c.engine.closed = true) :
    c.engine.Rests (c.engine.after .silent ev) := by
  cases ev with
  | call call => exact (hcall call rfl).elim
  | wait seconds => exact ⟨.of_eq rfl rfl rfl rfl, rfl, rfl, rfl, .rfl⟩
  | turn t =>
    cases t with
    | takeOff | updated | reloaded => cases hserves
    | quietOver =>
      have heq : c.engine.after .silent (.turn .quietOver) =
          { c.engine with quiet := c.engine.quiet.cancel } :=
        if_pos (hquiet rfl)
      rw [heq]
      exact ⟨⟨rfl, fun _ => rfl, rfl, rfl⟩, rfl, rfl, rfl, .rfl⟩
    | loaded load answer =>
      have heq : c.engine.turn .silent (.loaded load answer) = c.engine.withLoad load answer :=
        Engine.turn_loaded c.engine load answer
      change c.engine.Rests (c.engine.turn .silent (.loaded load answer))
      rw [heq]
      exact ⟨.of_eq rfl rfl rfl rfl, rfl, rfl, rfl, .rfl⟩
    | shownOver =>
      have hshown : Engine.Rests c.engine { c.engine with shown := c.engine.shown.cancel } :=
        ⟨.of_eq rfl rfl rfl rfl, rfl, rfl, rfl, .rfl⟩
      have hstalled := Engine.shownOver_stalled_iff aloof_silent.listening
        (g := { c.engine with shown := c.engine.shown.cancel })
      change c.engine.Rests (Engine.shownOver .silent _)
      rcases Engine.shownOver_cases .silent { c.engine with shown := c.engine.shown.cancel } with
        heq | ⟨-, -, htold⟩
      · rw [heq]
        exact hshown
      · obtain ⟨notices, heq⟩ := htold.of_silent
        rw [heq] at hstalled ⊢
        exact ⟨.of_eq rfl rfl rfl rfl, rfl, rfl, rfl, hstalled⟩

/-- The engine asks for nothing then. -/
theorem engine_after_of_rests (c : Course ω) {ev : Event ω}
    (hrests : c.engine.Rests (c.engine.after .silent ev)) (hsaid : c.engine.outbox = []) :
    (c.after .silent ev).engine = c.engine.after .silent ev := by
  change { c.engine.after .silent ev with outbox := [] } = _
  rw [← hrests.outbox.trans hsaid]

end Course

end DeferredSave
