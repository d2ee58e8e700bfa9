import DeferredSave.Proofs.Course.Owed
import DeferredSave.Proofs.Course.Underway

/-!
# What stands whatever happens

Listeners may call the engine as they like, the store may fail in any way, and the engine may be
closed: two things stand in every course. An edit that is in no batch is noted and shown
(`Mindful`). And while a batch is under way the indicator shows it, or it shows that there are edits
beyond it (`Engine.Aloft`). The first keeps a flight from being refused while there is something to
send, the second keeps it from ending with a save that is still shown.
-/

namespace DeferredSave

variable {ω : Type} {acting : Engine.Acting ω} {g g' : Engine ω} {sent : List Batch}
  {admitted : Engine ω → Call ω → Prop}

/-- The engine notes and shows that there are edits that no batch holds. -/
structure Mindful (sent : List Batch) (g : Engine ω) : Prop where
  ledger : Ledger sent g
  fresh : ∀ e, g.Fresh sent e → g.edited = true ∧ g.showsEdits = true

namespace Mindful

/-- Edits may be dropped as long as what is noted and shown stays. -/
theorem of_ledger (h : Mindful sent g) (hledger : Ledger sent g')
    (hsub : g'.edits.edits.Sublist g.edits.edits) (hsends : g'.sends = g.sends)
    (hedited : g'.edited = g.edited) (hstatus : g'.status = g.status) : Mindful sent g' where
  ledger := hledger
  fresh := by
    unfold Engine.showsEdits
    rw [hedited, hstatus]
    exact fun e he => h.fresh e (he.of_sublist hsub hsends)

/-- Only the edits, the flight, the note and the indicator matter. -/
theorem of_eq (h : Mindful sent g) (hedits : g'.edits = g.edits) (hflight : g'.flight = g.flight)
    (hsends : g'.sends = g.sends) (hedited : g'.edited = g.edited)
    (hstatus : g'.status = g.status) : Mindful sent g' :=
  h.of_ledger (h.ledger.of_eq hedits hflight hsends) (hedits ▸ List.Sublist.refl _) hsends hedited
    hstatus

/-- Where each edit is in a batch there is nothing to be noted. -/
theorem of_not_fresh (hledger : Ledger sent g) (hnone : ∀ e, ¬ g.Fresh sent e) : Mindful sent g :=
  ⟨hledger, fun e he => (hnone e he).elim⟩

theorem of_isEmpty (hledger : Ledger sent g) (hempty : g.edits.isEmpty = true) : Mindful sent g :=
  of_not_fresh hledger fun e he => Engine.not_mem_of_isEmpty hempty e he.1

theorem unspoken (sent : List Batch) : Unspoken fun g : Engine ω => Mindful sent g where
  tell := fun _ _ _ h => h.of_eq rfl rfl rfl rfl rfl
  order := fun g ws h => h.of_eq rfl rfl
    (congrArg (List.filterMap StoreCall.batch?) (Engine.asks_orders g.outbox ws)) rfl rfl

theorem land (h : Mindful sent g) (failure? : Option Failure) : Mindful sent (g.land failure?) :=
  h.of_ledger (h.ledger.land failure?) (List.Sublist.refl _) (Engine.sends_land g failure?) rfl rfl

theorem launch (h : Mindful sent g) : Mindful sent g.launch :=
  h.of_ledger h.ledger.launch (List.Sublist.refl _) (Engine.sends_launch g) rfl rfl

theorem reloads (h : Mindful sent g) {batch : Batch} (hbatch : g.flight.batch? = some batch)
    (rows : List Setting) : Mindful sent (g.reloads batch rows) :=
  h.of_ledger (h.ledger.reloads hbatch rows) (List.Sublist.refl _)
    (Engine.sends_reloads g batch rows) rfl rfl

/-- A batch of all edits leaves none that is in no batch. -/
theorem snapshot (hledger : Ledger sent g) : Mindful (g.edits.snapshot :: sent) g :=
  of_not_fresh hledger.snapshot fun _ he =>
    he.2 _ List.mem_cons_self (EditBuffer.snapshot_holds.2 he.1)

theorem send {batch : Batch} (h : Mindful (batch :: sent) g) :
    Mindful sent ({ g with flight := .saving batch }.emit (.update batch)) where
  ledger := h.ledger.send
  fresh := by
    intro e he
    obtain ⟨⟨he, hnone⟩, hnot⟩ := (Engine.fresh_send batch).1 he
    exact h.fresh e ⟨he, List.forall_mem_cons.2 ⟨hnot, hnone⟩⟩

/-- Where an edit is in no batch, the indicator allows a save. -/
theorem allows (h : Mindful sent g) {e : Edit} (he : g.Fresh sent e) :
    g.status.canBecome (if g.edits.isEmpty then .idle else .saving) = true := by
  rw [if_neg (by simp [Engine.isEmpty_of_mem he.1])]
  rcases Engine.showsEdits_iff.1 (h.fresh e he).2 with hs | hs <;> rw [hs] <;> rfl

/-! ## Calls -/

theorem abiding (sent : List Batch) :
    Engine.Abiding (fun _ _ => True) fun g : Engine ω => Mindful sent g where
  unspoken := unspoken sent
  -- the edit itself is noted and shown, whether or not there are others
  edit := fun key value _ _ h => ⟨(h.ledger.edit key value).event .edit, fun _ _ => ⟨rfl, rfl⟩⟩
  quiet := fun _ h => h.of_eq rfl rfl rfl rfl rfl
  drop := by
    intro g keys? hadm h
    have hdrop := g.edits.discard_sublist keys?
    exact h.of_ledger ((Ledger.abiding sent).drop keys? hadm h.ledger) hdrop.1 rfl rfl rfl
  rest := fun _ _ hempty h => of_isEmpty (h.ledger.event .idle) hempty
  close := fun h => h.of_eq rfl rfl rfl rfl rfl
  subscribe := fun _ _ h => h.of_eq rfl rfl rfl rfl rfl
  unsubscribe := fun handle h => h.of_eq rfl rfl rfl rfl (Engine.status_unsubscribe _ handle)
  request := fun _ h => h.of_eq rfl rfl rfl rfl rfl
  launch := fun _ h => h.launch
  load := fun h => h.of_eq rfl rfl rfl rfl rfl

end Mindful

theorem Listening.mindful (h : Listening admitted acting) (sent : List Batch) :
    Keeps (Mindful sent) acting :=
  (Mindful.abiding sent).keeps h.any

namespace Mindful

/-! ## The flight -/

section Keeping

variable (hlisten : Listening admitted acting)
include hlisten

theorem sendBatch (h : Mindful sent g) : Mindful sent (g.sendBatch acting) := by
  have hledger : Ledger sent { g with edited := false } := h.ledger.of_eq rfl rfl rfl
  rcases Engine.sendBatch_cases acting g with
    ⟨hempty, -, g', htold, heq⟩ | ⟨-, -, g', htold, heq⟩ | ⟨hrefused, failure?, heq⟩
  · have hidle : Mindful sent ({ g with edited := false }.shows .idle) :=
      of_isEmpty (hledger.event .idle) hempty
    have hdone : Mindful sent { g' with requested := false } :=
      (htold.keeps (hlisten.mindful sent) hidle).of_eq rfl rfl rfl rfl rfl
    exact heq ▸ hdone.land none
  · -- while the listeners are told, the batch is taken and not yet in the outbox
    have hsaving := snapshot (hledger.event .saving)
    exact heq ▸ (htold.keeps (hlisten.mindful _) hsaving).send
  · -- the indicator would have allowed it for an edit that is in no batch
    have hnone : ∀ e, ¬ g.Fresh sent e := by
      intro e he
      rw [h.allows he] at hrefused
      cases hrefused
    have hcleared : Mindful sent { g with edited := false } := of_not_fresh hledger hnone
    exact heq ▸ hcleared.land failure?

theorem endRound (h : Mindful sent g) : Mindful sent (g.endRound acting) := by
  have hdone : Mindful sent { g with requested := false } := h.of_eq rfl rfl rfl rfl rfl
  rcases Engine.endRound_cases acting g with ⟨-, heq⟩ | ⟨-, heq⟩
  · exact heq ▸ hdone.sendBatch hlisten
  · exact heq ▸ hdone.land none

/-- A failure shows that there may be edits. -/
theorem failed (h : Mindful sent g) {f : Failure}
    (htold : Engine.Told acting .error (g.shows (.failed (Engine.saveError f))) g') :
    Mindful sent g' := by
  have hfailed : Mindful sent (g.shows (.failed (Engine.saveError f))) :=
    ⟨h.ledger.event _, fun e he => ⟨(h.fresh e he).1, rfl⟩⟩
  exact htold.keeps (hlisten.mindful sent) hfailed

theorem updated (h : Mindful sent g) (answer : Except Failure (List Setting)) :
    Mindful sent (g.updated acting answer) := by
  cases hflight : g.flight with
  | saving batch =>
    rcases Engine.updated_cases acting hflight answer with
      ⟨-, heq⟩ | ⟨-, rows, -, heq⟩ | ⟨-, f, -, ⟨-, failure?, heq⟩ | ⟨g', htold, heq⟩⟩
    · exact heq ▸ h.endRound hlisten
    · exact heq ▸ h.reloads (by rw [hflight]; rfl) rows
    · exact heq ▸ h.land failure?
    · exact heq ▸ (h.failed hlisten htold).endRound hlisten
  | none | waiting | reloading => simpa [Engine.updated, hflight] using h

theorem showSaved (hledger : Ledger sent g) (hempty : g.edits.isEmpty = true) :
    Mindful sent (g.showSaved acting) := by
  have hshows (e : StatusEvent) : Mindful sent (g.shows e) :=
    of_isEmpty (hledger.event e) hempty
  rcases Engine.showSaved_cases acting g with ⟨-, g', htold, heq⟩ | ⟨-, g', htold, heq⟩
  · have hshown : Mindful sent { g' with shown := g'.shown.arm g'.now } :=
      (htold.keeps (hlisten.mindful sent) (hshows .saved)).of_eq rfl rfl rfl rfl rfl
    exact heq ▸ hshown.endRound hlisten
  · exact heq ▸ (htold.keeps (hlisten.mindful sent) (hshows .idle)).endRound hlisten

omit hlisten in
theorem confirmed (h : Mindful sent g) (batch : Batch) (rows : List Setting) (installed : Bool) :
    Mindful sent (g.confirmed batch rows installed) :=
  h.of_ledger ((h.ledger.discardFlushed batch).of_eq rfl rfl rfl)
    (g.edits.discardFlushed_sublist batch).1 rfl rfl rfl

theorem confirm (h : Mindful sent g) (batch : Batch) (rows : List Setting) (installed : Bool) :
    Mindful sent (g.confirm acting batch rows installed) := by
  have hdone := h.confirmed batch rows installed
  rcases Engine.confirm_cases acting g batch rows installed with
    ⟨failure, -, heq⟩ | ⟨hempty, heq⟩ | ⟨-, heq⟩
  · exact heq ▸ hdone.land _
  · exact heq ▸ showSaved hlisten hdone.ledger hempty
  · exact heq ▸ hdone.endRound hlisten

omit hlisten in
theorem withLoad (h : Mindful sent g) (load : Nat) (answer : Except Failure Categories) :
    Mindful sent (g.withLoad load answer) :=
  h.of_eq rfl rfl rfl rfl rfl

theorem reloaded (h : Mindful sent g) (answer : Except Failure Categories) :
    Mindful sent (g.reloaded acting answer) := by
  cases hflight : g.flight with
  | reloading batch rows load =>
    have hload := h.withLoad load answer
    rcases Engine.reloaded_cases acting hflight answer with
      ⟨-, heq⟩ | ⟨f, -, -, heq⟩ | ⟨-, -, heq⟩
    · exact heq ▸ hload.endRound hlisten
    · exact heq ▸ hload.land (some f)
    · exact heq ▸ hload.confirm hlisten batch rows _
  | none | waiting | saving => simpa [Engine.reloaded, hflight] using h

omit hlisten in
theorem quietOver (h : Mindful sent g) : Mindful sent g.quietOver := by
  rcases Engine.quietOver_cases g with ⟨-, heq⟩ | ⟨-, -, heq⟩ | ⟨-, -, heq⟩
  · rwa [heq]
  · exact heq ▸ h.of_eq rfl rfl rfl rfl rfl
  · exact heq ▸ h.launch

theorem shownOver (h : Mindful sent g) : Mindful sent (g.shownOver acting) := by
  rcases Engine.shownOver_cases acting g with heq | ⟨-, hsaved, htold⟩
  · rwa [heq]
  · -- while a save is shown each edit is in a batch
    have hnone : ∀ e, ¬ g.Fresh sent e := by
      intro e he
      rcases Engine.showsEdits_iff.1 (h.fresh e he).2 with hs | hs <;> cases hsaved.symm.trans hs
    have hidle : Mindful sent (g.shows .idle) := of_not_fresh (h.ledger.event .idle) hnone
    exact htold.keeps (hlisten.mindful sent) hidle

theorem turn (h : Mindful sent g) (t : Turn) : Mindful sent (g.turn acting t) := by
  cases t with
  | quietOver =>
    have hquiet : Mindful sent { g with quiet := g.quiet.cancel } := h.of_eq rfl rfl rfl rfl rfl
    exact hquiet.quietOver
  | shownOver =>
    have hshown : Mindful sent { g with shown := g.shown.cancel } := h.of_eq rfl rfl rfl rfl rfl
    exact hshown.shownOver hlisten
  | takeOff =>
    have hdone : Mindful sent { g with requested := false } := h.of_eq rfl rfl rfl rfl rfl
    exact hdone.sendBatch hlisten
  | updated answer => exact h.updated hlisten answer
  | reloaded answer => exact h.reloaded hlisten answer
  | loaded load answer =>
    rw [Engine.turn_loaded]
    exact h.withLoad load answer

theorem after (h : Mindful sent g) (ev : Event ω) : Mindful sent (g.after acting ev) := by
  cases ev with
  | call c => exact (abiding sent).call (hlisten.mindful sent) trivial h
  | turn t => exact h.turn hlisten t
  | wait seconds => exact h.of_eq rfl rfl rfl rfl rfl

end Keeping

/-- What the outbox sends is sent once the outbox is emptied. -/
theorem drained (h : Mindful sent g) : Mindful (sent ++ g.sends) { g with outbox := [] } where
  ledger := h.ledger.drained
  fresh := fun e he => h.fresh e (Engine.fresh_drained.1 he)

end Mindful

namespace Engine

/-! ## While a batch is under way -/

/-- The indicator shows the batch that is under way, or that there are edits beyond it. -/
def Aloft (g : Engine ω) : Prop := g.Carries g.Backs

theorem Backs.of_sublist {batch : Batch} (h : g.Backs batch)
    (hsub : g'.edits.edits.Sublist g.edits.edits) (hstatus : g'.status = g.status) :
    g'.Backs batch := by
  unfold Backs
  rw [hstatus]
  exact h.imp_right fun hs => ⟨hs.1, fun e he => hs.2 e (hsub.subset he)⟩

/-- Nothing else matters than the flight, the edits and the indicator. -/
theorem Aloft.of_eq (h : g.Aloft) (hedits : g'.edits = g.edits) (hflight : g'.flight = g.flight)
    (hstatus : g'.status = g.status) : g'.Aloft := by
  intro batch hbatch
  exact (h batch (hflight ▸ hbatch)).of_sublist (hedits ▸ List.Sublist.refl _) hstatus

/-- Calls leave a flight alone, and its indicator too unless they show that there is a further
edit. -/
theorem backs_abiding (batch : Batch) :
    Abiding (fun _ _ => True) fun g : Engine ω => g.flying = true ∧ g.Backs batch where
  unspoken := ⟨fun _ _ _ h => h, fun _ _ h => h⟩
  edit := fun _ _ _ _ h => ⟨h.1, .inl rfl⟩
  quiet := fun _ h => h
  drop := fun {g} keys? _ h => ⟨h.1, h.2.of_sublist (g.edits.discard_sublist keys?).1 rfl⟩
  rest := fun hnone _ _ h => nomatch h.1.symm.trans hnone
  close := fun h => h
  subscribe := fun _ _ h => h
  unsubscribe := fun {g} handle h =>
    ⟨h.1, h.2.of_sublist (List.Sublist.refl _) (status_unsubscribe g handle)⟩
  request := fun _ h => h
  launch := fun hnone h => nomatch h.1.symm.trans hnone
  load := fun h => h

end Engine

theorem Listening.backs (h : Listening admitted acting) (batch : Batch) :
    Keeps (fun g : Engine ω => g.flying = true ∧ g.Backs batch) acting :=
  (Engine.backs_abiding batch).keeps h.any

namespace Engine

theorem aloft_of_none (h : g.flight.batch? = none) : g.Aloft := by
  intro batch hbatch
  cases h.symm.trans hbatch

section

variable (hlisten : Listening admitted acting)
include hlisten

theorem Told.flying {status : Status} (h : Told acting status g g') (hflying : g.flying = true) :
    g'.flying = true := by
  unfold Engine.flying
  rw [h.flight hlisten]
  exact hflying

theorem Aloft.call (h : g.Aloft) (c : Call ω) : (g.call acting c).Aloft := by
  intro batch hbatch
  obtain hstays | ⟨-, hwaiting⟩ := call_flight hlisten g c
  · have hbefore : g.flight.batch? = some batch := hstays ▸ hbatch
    exact ((backs_abiding batch).call (hlisten.backs batch) trivial
      ⟨flying_of_batch hbefore, h batch hbefore⟩).2
  · rw [hwaiting] at hbatch
    cases hbatch

/-- Each edit that listeners make while they are told of a batch is one beyond it. -/
theorem sendBatch_aloft (hflying : g.flying = true) : (g.sendBatch acting).Aloft := by
  rcases sendBatch_cases acting g with
    ⟨-, -, g', -, heq⟩ | ⟨-, -, g', htold, heq⟩ | ⟨-, failure?, heq⟩
  · exact heq ▸ aloft_of_none rfl
  · have hbacks : ({ g with edited := false }.shows .saving).Backs g.edits.snapshot :=
      .inr ⟨rfl, fun e he => EditBuffer.snapshot_holds.2 he⟩
    have htold := htold.keeps (hlisten.backs g.edits.snapshot) ⟨hflying, hbacks⟩
    rw [heq]
    rintro _ ⟨⟩
    exact htold.2
  · exact heq ▸ aloft_of_none rfl

theorem endRound_aloft (hflying : g.flying = true) : (g.endRound acting).Aloft := by
  rcases endRound_cases acting g with ⟨-, heq⟩ | ⟨-, heq⟩
  · exact heq ▸ sendBatch_aloft hlisten hflying
  · exact heq ▸ aloft_of_none rfl

theorem Aloft.updated (h : g.Aloft) (answer : Except Failure (List Setting)) :
    (g.updated acting answer).Aloft := by
  cases hflight : g.flight with
  | saving batch =>
    have hbatch : g.flight.batch? = some batch := by rw [hflight]; rfl
    have hflying : g.flying = true := flying_of_batch hbatch
    rcases updated_cases acting hflight answer with
      ⟨-, heq⟩ | ⟨-, rows, -, heq⟩ | ⟨-, f, -, ⟨-, failure?, heq⟩ | ⟨g', htold, heq⟩⟩
    · exact heq ▸ endRound_aloft hlisten hflying
    · rw [heq]
      rintro _ ⟨⟩
      exact h batch hbatch
    · exact heq ▸ aloft_of_none rfl
    · exact heq ▸ endRound_aloft hlisten (htold.flying hlisten hflying)
  | none | waiting | reloading => simpa [Engine.updated, hflight] using h

theorem showSaved_aloft (hflying : g.flying = true) : (g.showSaved acting).Aloft := by
  rcases showSaved_cases acting g with ⟨-, g', htold, heq⟩ | ⟨-, g', htold, heq⟩
  · have hstill : g'.flying = true := htold.flying hlisten hflying
    have hshown : flying { g' with shown := g'.shown.arm g'.now } = true := hstill
    exact heq ▸ endRound_aloft hlisten hshown
  · exact heq ▸ endRound_aloft hlisten (htold.flying hlisten hflying)

theorem confirm_aloft (hflying : g.flying = true) (batch : Batch) (rows : List Setting)
    (installed : Bool) : (g.confirm acting batch rows installed).Aloft := by
  have hdone : (g.confirmed batch rows installed).flying = true := hflying
  rcases confirm_cases acting g batch rows installed with
    ⟨failure, -, heq⟩ | ⟨-, heq⟩ | ⟨-, heq⟩
  · exact heq ▸ aloft_of_none rfl
  · exact heq ▸ showSaved_aloft hlisten hdone
  · exact heq ▸ endRound_aloft hlisten hdone

theorem Aloft.reloaded (h : g.Aloft) (answer : Except Failure Categories) :
    (g.reloaded acting answer).Aloft := by
  cases hflight : g.flight with
  | reloading batch rows load =>
    have hload : (g.withLoad load answer).flying = true :=
      flying_of_batch (show g.flight.batch? = some batch by rw [hflight]; rfl)
    rcases reloaded_cases acting hflight answer with
      ⟨-, heq⟩ | ⟨f, -, -, heq⟩ | ⟨-, -, heq⟩
    · exact heq ▸ endRound_aloft hlisten hload
    · exact heq ▸ aloft_of_none rfl
    · exact heq ▸ confirm_aloft hlisten hload batch rows _
  | none | waiting | saving => simpa [Engine.reloaded, hflight] using h

theorem Aloft.turn (h : g.Aloft) {t : Turn} (hready : t = .takeOff → g.flight = .waiting) :
    (g.turn acting t).Aloft := by
  cases t with
  | quietOver =>
    change (Engine.quietOver _).Aloft
    rcases quietOver_cases { g with quiet := g.quiet.cancel } with
      ⟨-, heq⟩ | ⟨-, -, heq⟩ | ⟨-, -, heq⟩
    · rwa [heq]
    · rwa [heq]
    · exact heq ▸ aloft_of_none rfl
  | shownOver =>
    change (Engine.shownOver acting _).Aloft
    rcases shownOver_cases acting { g with shown := g.shown.cancel } with heq | ⟨-, hsaved, htold⟩
    · rwa [heq]
    · -- while a batch is under way no save is shown as done
      intro batch hbatch
      rw [htold.flight hlisten] at hbatch
      have hstatus : g.status = .saved := hsaved
      obtain hs | ⟨hs, -⟩ := h batch hbatch <;> cases hstatus.symm.trans hs
  | takeOff =>
    have hflying : flying { g with requested := false } = true := by
      simp [flying, hready rfl]
    exact sendBatch_aloft hlisten hflying
  | updated answer => exact h.updated hlisten answer
  | reloaded answer => exact h.reloaded hlisten answer
  | loaded load answer =>
    rw [turn_loaded]
    exact h

end

end Engine

/-! ## In the course of events -/

namespace Course

theorem Reachable.mindful {events : Course ω → Event ω → Prop} {c : Course ω}
    (h : c.Reachable events (Listening admitted)) : Mindful c.sent c.engine := by
  obtain ⟨metas, rules, quietPeriod, shownFor, hleads⟩ := h
  induction hleads with
  | refl => exact .of_isEmpty (sound_start metas rules quietPeriod shownFor).ledger rfl
  | step _ hlisten _ _ ih =>
    rw [sent_after]
    exact (ih.after hlisten _).drained

theorem Reachable.aloft {events : Course ω → Event ω → Prop} {c : Course ω}
    (h : c.Reachable events (Listening admitted)) : c.engine.Aloft := by
  obtain ⟨metas, rules, quietPeriod, shownFor, hleads⟩ := h
  induction hleads with
  | refl => exact Engine.aloft_of_none rfl
  | @step c acting ev _ hlisten hready _ ih =>
    change (c.engine.after acting ev).Aloft
    cases ev with
    | call call => exact ih.call hlisten call
    | turn t =>
      refine ih.turn hlisten ?_
      rintro rfl
      exact hready
    | wait seconds => exact ih

end Course

end DeferredSave
