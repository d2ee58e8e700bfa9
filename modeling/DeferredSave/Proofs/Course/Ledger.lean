import DeferredSave.Proofs.Course.Frame
import DeferredSave.Proofs.Course.Stretch

/-!
# The edits and the batches of an engine

In every course, the edits in the buffer and the batches that were sent fit together: every batch is
known to the buffer, and the batch of the flight is one of those that were sent. Each function of
the engine keeps this, and so do all calls that listeners make.
-/

namespace DeferredSave

variable {ω : Type} {acting : Engine.Acting ω} {g g' : Engine ω} {sent : List Batch}
  {admitted : Engine ω → Call ω → Prop}

/-! ## Batches in the outbox -/

/-- The batches that the outbox sends. -/
def Engine.sends (g : Engine ω) : List Batch := g.asks.filterMap StoreCall.batch?

namespace Engine

theorem asks_emit (g : Engine ω) (e : Effect ω) :
    (g.emit e).asks = g.asks ++ e.storeCall?.toList := by
  cases h : e.storeCall? <;> simp [asks, emit, List.filterMap_append, h]

@[simp] theorem sends_land (g : Engine ω) (failure? : Option Failure) :
    (g.land failure?).sends = g.sends := by
  unfold sends land
  rw [asks_emit]
  exact congrArg _ (List.append_nil _)

@[simp] theorem sends_launch (g : Engine ω) : g.launch.sends = g.sends := by
  unfold sends launch
  rw [asks_emit]
  exact congrArg _ (List.append_nil _)

@[simp] theorem sends_reloads (g : Engine ω) (batch : Batch) (rows : List Setting) :
    (g.reloads batch rows).sends = g.sends := by
  unfold sends reloads
  rw [asks_emit, List.filterMap_append]
  exact List.append_nil _

@[simp] theorem sends_update (g : Engine ω) (batch : Batch) :
    (g.emit (.update batch)).sends = g.sends ++ [batch] := by
  unfold sends
  rw [asks_emit, List.filterMap_append]
  rfl

end Engine

/-! ## The ledger -/

/-- The edits of an engine fit to the batches that were sent before, and to those in its outbox. -/
structure Ledger (sent : List Batch) (g : Engine ω) : Prop where
  orderly : g.edits.Orderly
  knows : ∀ batch ∈ sent ++ g.sends, g.edits.Knows batch
  flight : ∀ batch, g.flight.batch? = some batch → batch ∈ sent ++ g.sends

namespace Ledger

/-- Edits may be dropped, and the flight may lose its batch. -/
theorem of_sublist (h : Ledger sent g) (hsub : g'.edits.edits.Sublist g.edits.edits)
    (hissued : g'.edits.issued = g.edits.issued)
    (hflight : ∀ batch, g'.flight.batch? = some batch → g.flight.batch? = some batch)
    (hsends : g'.sends = g.sends) : Ledger sent g' where
  orderly := h.orderly.of_sublist hsub hissued
  knows := fun batch hbatch => (h.knows batch (hsends ▸ hbatch)).of_sublist hsub hissued
  flight := fun batch hbatch => hsends ▸ h.flight batch (hflight batch hbatch)

/-- Only the edits, the flight and what is sent matter. -/
theorem of_eq (h : Ledger sent g) (hedits : g'.edits = g.edits) (hflight : g'.flight = g.flight)
    (hsends : g'.sends = g.sends) : Ledger sent g' :=
  h.of_sublist (hedits ▸ List.Sublist.refl _) (hedits ▸ rfl) (fun _ hbatch => hflight ▸ hbatch)
    hsends

theorem event (h : Ledger sent g) (e : StatusEvent) : Ledger sent (g.shows e) :=
  h.of_eq rfl rfl rfl

theorem unspoken (sent : List Batch) : Unspoken fun g : Engine ω => Ledger sent g where
  tell := fun _ _ _ h => h.of_eq rfl rfl rfl
  order := fun g ws h => h.of_eq rfl rfl
    (congrArg (List.filterMap StoreCall.batch?) (Engine.asks_orders g.outbox ws))

theorem land (h : Ledger sent g) (failure? : Option Failure) : Ledger sent (g.land failure?) :=
  h.of_sublist (List.Sublist.refl _) rfl (fun _ hbatch => nomatch hbatch)
    (Engine.sends_land g failure?)

theorem launch (h : Ledger sent g) : Ledger sent g.launch :=
  h.of_sublist (List.Sublist.refl _) rfl (fun _ hbatch => nomatch hbatch) (Engine.sends_launch g)

theorem reloads (h : Ledger sent g) {batch : Batch} (hbatch : g.flight.batch? = some batch)
    (rows : List Setting) : Ledger sent (g.reloads batch rows) := by
  refine h.of_sublist (List.Sublist.refl _) rfl ?_ (Engine.sends_reloads g batch rows)
  rintro _ ⟨⟩
  exact hbatch

theorem edit (h : Ledger sent g) (key value : String) : Ledger sent (g.edit key value) where
  orderly := h.orderly.set key value
  knows := fun batch hbatch => (h.knows batch hbatch).set key value
  flight := h.flight

theorem discardFlushed (h : Ledger sent g) (batch : Batch) :
    Ledger sent { g with edits := (g.edits.discardFlushed batch).1 } := by
  have hdrop := g.edits.discardFlushed_sublist batch
  exact h.of_sublist hdrop.1 hdrop.2 (fun _ => id) rfl

/-- The batch that is taken from the buffer may be counted among those that were sent. -/
theorem snapshot (h : Ledger sent g) : Ledger (g.edits.snapshot :: sent) g where
  orderly := h.orderly
  knows := by
    intro batch hbatch
    rcases List.mem_cons.1 hbatch with rfl | hbatch
    · exact h.orderly.knows_snapshot
    · exact h.knows batch hbatch
  flight := fun batch hbatch => List.mem_cons_of_mem _ (h.flight batch hbatch)

/-- A batch that is counted among those that were sent may be sent. -/
theorem send {batch : Batch} (h : Ledger (batch :: sent) g) :
    Ledger sent ({ g with flight := .saving batch }.emit (.update batch)) := by
  have hsends : sent ++ ({ g with flight := .saving batch }.emit (.update batch)).sends =
      sent ++ g.sends ++ [batch] := by
    rw [Engine.sends_update, List.append_assoc]
    rfl
  refine ⟨h.orderly, ?_, ?_⟩
  · -- the same batches as before, the new one being the last of them now
    intro batch' hbatch'
    rw [hsends, List.mem_append, List.mem_singleton] at hbatch'
    exact h.knows batch' (List.mem_cons.2 hbatch'.symm)
  · rintro batch' ⟨⟩
    rw [hsends]
    simp

/-! ## Calls -/

theorem abiding (sent : List Batch) :
    Engine.Abiding (fun _ _ => True) fun g : Engine ω => Ledger sent g where
  unspoken := unspoken sent
  edit := fun key value _ _ h => (h.edit key value).event .edit
  quiet := fun _ h => h.of_eq rfl rfl rfl
  drop := by
    intro g keys? _ h
    have hdrop := g.edits.discard_sublist keys?
    exact h.of_sublist hdrop.1 hdrop.2 (fun _ => id) rfl
  rest := fun _ _ _ h => h.event .idle
  close := fun h => h.of_eq rfl rfl rfl
  subscribe := fun _ _ h => h.of_eq rfl rfl rfl
  unsubscribe := fun _ h => h.of_eq rfl rfl rfl
  request := fun _ h => h.of_eq rfl rfl rfl
  launch := fun _ h => h.launch
  load := fun h => h.of_eq rfl rfl rfl

end Ledger

/-- Whatever listeners call, the edits and the batches still fit together. -/
theorem Listening.ledger (h : Listening admitted acting) (sent : List Batch) :
    Keeps (Ledger sent) acting :=
  (Ledger.abiding sent).keeps h.any

theorem Aloof.ledger (h : Aloof acting) (sent : List Batch) : Keeps (Ledger sent) acting :=
  h.keeps (Ledger.unspoken sent)

namespace Ledger

/-! ## The flight -/

section Keeping

variable (hkeeps : ∀ sent, Keeps (Ledger sent) acting)
include hkeeps

theorem sendBatch (h : Ledger sent g) : Ledger sent (g.sendBatch acting) := by
  have hedited : Ledger sent { g with edited := false } := h.of_eq rfl rfl rfl
  rcases Engine.sendBatch_cases acting g with
    ⟨-, -, g', htold, heq⟩ | ⟨-, -, g', htold, heq⟩ | ⟨-, failure?, heq⟩
  · rw [heq]
    have htold := htold.keeps (hkeeps sent) (hedited.event .idle)
    have hdone : Ledger sent { g' with requested := false } := htold.of_eq rfl rfl rfl
    exact hdone.land none
  · -- while the listeners are told, the batch is taken and not yet in the outbox
    rw [heq]
    exact (htold.keeps (hkeeps _) (hedited.event .saving).snapshot).send
  · rw [heq]
    exact hedited.land failure?

theorem endRound (h : Ledger sent g) : Ledger sent (g.endRound acting) := by
  have hdone : Ledger sent { g with requested := false } := h.of_eq rfl rfl rfl
  rcases Engine.endRound_cases acting g with ⟨-, heq⟩ | ⟨-, heq⟩
  · exact heq ▸ hdone.sendBatch hkeeps
  · exact heq ▸ hdone.land none

theorem updated (h : Ledger sent g) (answer : Except Failure (List Setting)) :
    Ledger sent (g.updated acting answer) := by
  cases hflight : g.flight with
  | saving batch =>
    rcases Engine.updated_cases acting hflight answer with
      ⟨-, heq⟩ | ⟨-, rows, -, heq⟩ | ⟨-, f, -, ⟨-, failure?, heq⟩ | ⟨g', htold, heq⟩⟩
    · exact heq ▸ h.endRound hkeeps
    · exact heq ▸ h.reloads (by rw [hflight]; rfl) rows
    · exact heq ▸ h.land failure?
    · exact heq ▸ (htold.keeps (hkeeps sent) (h.event _)).endRound hkeeps
  | none | waiting | reloading => simpa [Engine.updated, hflight] using h

theorem showSaved (h : Ledger sent g) : Ledger sent (g.showSaved acting) := by
  rcases Engine.showSaved_cases acting g with ⟨-, g', htold, heq⟩ | ⟨-, g', htold, heq⟩
  · have hshown : Ledger sent { g' with shown := g'.shown.arm g'.now } :=
      (htold.keeps (hkeeps sent) (h.event .saved)).of_eq rfl rfl rfl
    exact heq ▸ hshown.endRound hkeeps
  · exact heq ▸ (htold.keeps (hkeeps sent) (h.event .idle)).endRound hkeeps

theorem confirm (h : Ledger sent g) (batch : Batch) (rows : List Setting) (installed : Bool) :
    Ledger sent (g.confirm acting batch rows installed) := by
  have hdone : Ledger sent (g.confirmed batch rows installed) :=
    (h.discardFlushed batch).of_eq rfl rfl rfl
  rcases Engine.confirm_cases acting g batch rows installed with
    ⟨failure, -, heq⟩ | ⟨-, heq⟩ | ⟨-, heq⟩
  · exact heq ▸ hdone.land _
  · exact heq ▸ hdone.showSaved hkeeps
  · exact heq ▸ hdone.endRound hkeeps

omit hkeeps in
theorem withLoad (h : Ledger sent g) (load : Nat) (answer : Except Failure Categories) :
    Ledger sent (g.withLoad load answer) :=
  h.of_eq rfl rfl rfl

theorem reloaded (h : Ledger sent g) (answer : Except Failure Categories) :
    Ledger sent (g.reloaded acting answer) := by
  cases hflight : g.flight with
  | reloading batch rows load =>
    have hload := h.withLoad load answer
    rcases Engine.reloaded_cases acting hflight answer with
      ⟨-, heq⟩ | ⟨f, -, -, heq⟩ | ⟨-, -, heq⟩
    · exact heq ▸ hload.endRound hkeeps
    · exact heq ▸ hload.land (some f)
    · exact heq ▸ hload.confirm hkeeps batch rows _
  | none | waiting | saving => simpa [Engine.reloaded, hflight] using h

/-! ## Turns -/

omit hkeeps in
theorem quietOver (h : Ledger sent g) : Ledger sent g.quietOver := by
  rcases Engine.quietOver_cases g with ⟨-, heq⟩ | ⟨-, -, heq⟩ | ⟨-, -, heq⟩
  · rwa [heq]
  · exact heq ▸ h.of_eq rfl rfl rfl
  · exact heq ▸ h.launch

theorem shownOver (h : Ledger sent g) : Ledger sent (g.shownOver acting) := by
  rcases Engine.shownOver_cases acting g with heq | ⟨-, -, htold⟩
  · rwa [heq]
  · exact htold.keeps (hkeeps sent) (h.event .idle)

theorem turn (h : Ledger sent g) (t : Turn) : Ledger sent (g.turn acting t) := by
  cases t with
  | quietOver =>
    have hquiet : Ledger sent { g with quiet := g.quiet.cancel } := h.of_eq rfl rfl rfl
    exact hquiet.quietOver
  | shownOver =>
    have hshown : Ledger sent { g with shown := g.shown.cancel } := h.of_eq rfl rfl rfl
    exact hshown.shownOver hkeeps
  | takeOff =>
    have hdone : Ledger sent { g with requested := false } := h.of_eq rfl rfl rfl
    exact hdone.sendBatch hkeeps
  | updated answer => exact h.updated hkeeps answer
  | reloaded answer => exact h.reloaded hkeeps answer
  | loaded load answer =>
    rw [Engine.turn_loaded]
    exact h.withLoad load answer

theorem after (h : Ledger sent g) (ev : Event ω) : Ledger sent (g.after acting ev) := by
  cases ev with
  | call c => exact (abiding sent).call (hkeeps sent) trivial h
  | turn t => exact h.turn hkeeps t
  | wait seconds => exact h.of_eq rfl rfl rfl

end Keeping

/-- What the outbox sends is sent once the outbox is emptied. -/
theorem drained (h : Ledger sent g) : Ledger (sent ++ g.sends) { g with outbox := [] } where
  orderly := h.orderly
  knows := by
    intro batch hbatch
    exact h.knows batch ((List.append_nil (sent ++ g.sends)) ▸ hbatch)
  flight := fun batch hbatch => List.mem_append_left _ (h.flight batch hbatch)

end Ledger

/-! ## Edits that no batch holds -/

/-- The edit is in the buffer, and none of the batches that were sent holds it. -/
def Engine.Fresh (sent : List Batch) (g : Engine ω) (e : Edit) : Prop :=
  e ∈ g.edits.edits ∧ ∀ batch ∈ sent ++ g.sends, ¬ batch.Holds e

namespace Engine

variable {e : Edit}

theorem Fresh.of_sublist (h : g'.Fresh sent e) (hsub : g'.edits.edits.Sublist g.edits.edits)
    (hsends : g'.sends = g.sends) : g.Fresh sent e :=
  ⟨hsub.subset h.1, fun batch hbatch => h.2 batch (hsends.symm ▸ hbatch)⟩

theorem Fresh.of_eq (h : g'.Fresh sent e) (hedits : g'.edits = g.edits)
    (hsends : g'.sends = g.sends) : g.Fresh sent e :=
  h.of_sublist (hedits ▸ List.Sublist.refl _) hsends

/-- An edit that was just made is in no batch. -/
theorem fresh_edit (h : Ledger sent g) (key value : String) :
    (g.edit key value).Fresh sent ⟨key, value, g.edits.issued + 1⟩ := by
  refine ⟨EditBuffer.mem_set.2 (.inr rfl), ?_⟩
  intro batch hbatch hholds
  -- the revision of the edit is the next one, and batches hold only revisions issued so far
  have hle := (h.knows batch hbatch).issued _ hholds
  simp only at hle
  omega

/-- Storing a batch drops no edit that is in no batch. -/
theorem fresh_discardFlushed (h : Ledger sent g) {batch : Batch}
    (hbatch : batch ∈ sent ++ g.sends) :
    Fresh sent { g with edits := (g.edits.discardFlushed batch).1 } e ↔ g.Fresh sent e := by
  have hmem := EditBuffer.mem_discardFlushed (e := e) h.orderly (h.knows batch hbatch)
  constructor
  · intro hfresh
    exact ⟨(hmem.1 hfresh.1).1, hfresh.2⟩
  · intro hfresh
    exact ⟨hmem.2 ⟨hfresh.1, hfresh.2 batch hbatch⟩, hfresh.2⟩

/-- A batch that is sent makes the edits that it holds no longer fresh. -/
theorem fresh_send (batch : Batch) :
    Fresh sent ({ g with flight := .saving batch }.emit (.update batch)) e ↔
      g.Fresh sent e ∧ ¬ batch.Holds e := by
  have hsends : ({ g with flight := .saving batch }.emit (.update batch)).sends =
      g.sends ++ [batch] := sends_update _ batch
  unfold Fresh
  rw [hsends, ← List.append_assoc, List.forall_mem_append, List.forall_mem_singleton, and_assoc]
  rfl

theorem fresh_drained :
    Fresh (sent ++ g.sends) { g with outbox := [] } e ↔ g.Fresh sent e := by
  have hsends : sent ++ g.sends ++ { g with outbox := [] }.sends = sent ++ g.sends :=
    List.append_nil _
  unfold Fresh
  rw [hsends]

end Engine

/-! ## In the course of events -/

namespace Course

theorem sent_after (c : Course ω) (ev : Event ω) :
    (c.after acting ev).sent = c.sent ++ (c.engine.after acting ev).sends := by
  have hnone : (c.askedFor ev).filterMap StoreCall.batch? = [] := by
    unfold askedFor
    split
    · split <;> rfl
    · rfl
  simp only [sent, after, Engine.sends, List.filterMap_append, hnone, List.append_nil]

/-- The engine has said all that it had to say, and its edits fit to what was sent. -/
structure Sound (c : Course ω) : Prop where
  said : c.engine.outbox = []
  ledger : Ledger c.sent c.engine

theorem Sound.asks {c : Course ω} (h : c.Sound) : c.engine.asks = [] := by
  unfold Engine.asks
  rw [h.said]
  rfl

theorem Sound.sends {c : Course ω} (h : c.Sound) : c.engine.sends = [] := by
  unfold Engine.sends
  rw [h.asks]
  rfl

/-- An engine that has said all has sent its batches. -/
theorem Sound.fresh_iff {c : Course ω} (h : c.Sound) {e : Edit} :
    c.engine.Fresh c.sent e ↔ e ∈ c.engine.edits.edits ∧ c.Unsent e := by
  unfold Engine.Fresh Unsent
  rw [h.sends, List.append_nil]

theorem sound_start (metas : MetaTable) (rules : List CrossRule) (quietPeriod shownFor : Rat) :
    (start metas rules quietPeriod shownFor : Course ω).Sound where
  said := rfl
  ledger :=
    ⟨⟨List.nodup_nil, .nil, fun _ he => nomatch he⟩, fun _ hbatch => (nomatch hbatch),
      fun _ hbatch => (nomatch hbatch)⟩

theorem Sound.after {c : Course ω} (h : c.Sound) (hlisten : Listening admitted acting)
    (ev : Event ω) : (c.after acting ev).Sound where
  said := rfl
  ledger := by
    rw [sent_after]
    exact (h.ledger.after hlisten.ledger ev).drained

theorem Leads.sound {events : Course ω → Event ω → Prop} {listeners : Engine.Acting ω → Prop}
    {c c' : Course ω} (h : Leads events listeners c c')
    (hlisten : ∀ acting, listeners acting → Listening admitted acting) (hc : c.Sound) :
    c'.Sound := by
  induction h with
  | refl => exact hc
  | step _ hacting _ _ ih => exact ih.after (hlisten _ hacting) _

theorem Reachable.sound {events : Course ω → Event ω → Prop} {c : Course ω}
    (h : c.Reachable events (Listening admitted)) : c.Sound := by
  obtain ⟨metas, rules, quietPeriod, shownFor, hleads⟩ := h
  exact hleads.sound (fun _ => id) (sound_start metas rules quietPeriod shownFor)

end Course

end DeferredSave
