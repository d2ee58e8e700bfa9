import DeferredSave.Proofs.Course.Frame
import DeferredSave.Proofs.Edit.History

/-!
# The edits of a course

The edits that are made in the course of events are listed one after the other (`Course.Edited`).
As long as listeners make no edits of their own, the buffer holds last edits of this list only, and
in its order (`Course.Edited.sublist`).
-/

namespace DeferredSave

variable {ω : Type} {acting : Engine.Acting ω} {g : Engine ω}

/-- A call that makes no edit. -/
def Call.Editless : Call ω → Prop
  | .change _ _ => False
  | _ => True

/-- Listeners that make no edits, whatever else they do. -/
def Editless (acting : Engine.Acting ω) : Prop := Listening (fun _ c => c.Editless) acting

namespace Engine

/-! ## Events that make no edit -/

/-- Some of the edits may be gone, but there are no others, and their order is the same. -/
theorem within_abiding (edits : List Edit) :
    Abiding (fun _ c => c.Editless) fun g : Engine ω => g.edits.edits.Sublist edits where
  unspoken := ⟨fun _ _ _ h => h, fun _ _ h => h⟩
  edit := fun _ _ hadm => hadm.elim
  quiet := fun _ h => h
  drop := fun keys? _ h => (EditBuffer.discard_sublist _ keys?).1.trans h
  rest := fun _ _ _ h => h
  close := fun h => h
  subscribe := fun _ _ h => h
  unsubscribe := fun _ h => h
  request := fun _ h => h
  launch := fun _ h => h
  load := fun h => h

theorem within_keeps (hlisten : Editless acting) (edits : List Edit) :
    Keeps (fun g : Engine ω => g.edits.edits.Sublist edits) acting :=
  (within_abiding edits).keeps hlisten

theorem within_steady (hlisten : Editless acting) (edits : List Edit) :
    Steady (fun g : Engine ω => g.edits.edits.Sublist edits) acting where
  keeps := within_keeps hlisten edits
  shows := fun _ h => h
  aside := fun h hedits _ _ => hedits ▸ h

theorem turn_within (hlisten : Editless acting) (g : Engine ω) (t : Turn) :
    (g.turn acting t).edits.edits.Sublist g.edits.edits := by
  refine (within_steady hlisten g.edits.edits).turn (List.Sublist.refl _) ?_
  intro answer _ batch rows load _
  exact (g.edits.discardFlushed_sublist batch).1

theorem call_within (hlisten : Editless acting) (g : Engine ω) {c : Call ω} (hc : c.Editless) :
    (g.call acting c).edits.edits.Sublist g.edits.edits :=
  (within_abiding g.edits.edits).call (within_keeps hlisten _) hc (List.Sublist.refl _)

/-- After an edit the buffer holds what it would hold without listeners, or less. -/
theorem change_within (hlisten : Editless acting) (hopen : g.closed = false) (key value : String) :
    (g.change acting key value).1.edits.edits.Sublist (g.edits.set key value).edits := by
  obtain ⟨g', htold, heq⟩ := change_of_open acting hopen key value
  have hwithin : g'.edits.edits.Sublist (g.edits.set key value).edits :=
    htold.keeps (within_keeps hlisten _) (List.Sublist.refl _)
  rw [heq]
  exact hwithin

/-! ## The list of edits -/

/-- The edits that an event makes. -/
def editsBy (g : Engine ω) : Event ω → List (String × String)
  | .call (.change key value) => if g.closed then [] else [(key, value)]
  | _ => []

/-- An event adds its edit to the list, and the buffer still holds last edits only. -/
theorem items_after (hlisten : Editless acting) {log : List (String × String)}
    (h : g.edits.items.Sublist (lastEdits log)) (ev : Event ω) :
    (g.after acting ev).edits.items.Sublist (lastEdits (log ++ g.editsBy ev)) := by
  -- what makes no edit leaves a part of the buffer
  have hless (g' : Engine ω) (hsub : g'.edits.edits.Sublist g.edits.edits) :
      g'.edits.items.Sublist (lastEdits (log ++ [])) := by
    rw [List.append_nil]
    exact (hsub.map fun e : Edit => (e.key, e.value)).trans h
  cases ev with
  | wait seconds => exact hless _ (List.Sublist.refl _)
  | turn t => exact hless _ (turn_within hlisten g t)
  | call c =>
    cases c with
    | change key value =>
      cases hclosed : g.closed with
      | true =>
        have hsame : (g.change acting key value).1 = g := change_of_closed hclosed key value
        simp only [editsBy, hclosed, if_true]
        exact hless _ (by rw [after, call, hsame])
      | false =>
        simp only [editsBy, hclosed, Bool.false_eq_true, if_false]
        have hsub := change_within hlisten hclosed key value
        exact (hsub.map fun e : Edit => (e.key, e.value)).trans
          (EditBuffer.sublist_lastEdits_set h key value)
    | discard | flushNow | refresh | close | subscribe | unsubscribe =>
      exact hless _ (call_within hlisten g trivial)

end Engine

namespace Course

/-- A course of an engine from its start on, together with the edits that were made in it. -/
inductive Edited : Course ω → List (String × String) → Prop where
  | start (metas : MetaTable) (rules : List CrossRule) (quietPeriod shownFor : Rat) :
      Edited (start metas rules quietPeriod shownFor) []
  | step {c : Course ω} {log : List (String × String)} {acting : Engine.Acting ω} {ev : Event ω} :
      Edited c log → Editless acting → c.Ready ev →
      Edited (c.after acting ev) (log ++ c.engine.editsBy ev)

/-- What is in the buffer was edited last in this way, and in this order. -/
theorem Edited.sublist {c : Course ω} {log : List (String × String)} (h : c.Edited log) :
    c.engine.edits.items.Sublist (lastEdits log) := by
  induction h with
  | start => exact List.Sublist.refl _
  | step _ hlisten _ ih => exact Engine.items_after hlisten ih _

/-- The edits that some events make, one after the other. -/
def editsIn (acting : Engine.Acting ω) (c : Course ω) : List (Event ω) → List (String × String)
  | [] => []
  | ev :: evs => c.engine.editsBy ev ++ (c.after acting ev).editsIn acting evs

theorem Edited.run {c : Course ω} {log : List (String × String)} {evs : List (Event ω)}
    (h : c.Edited log) (hlisten : Editless acting) (hruns : c.Runs acting evs) :
    (c.run acting evs).Edited (log ++ c.editsIn acting evs) := by
  induction evs generalizing c log with
  | nil => rwa [editsIn, List.append_nil]
  | cons ev evs ih =>
    have hnext := ih (h.step hlisten hruns.1) hruns.2
    rwa [List.append_assoc] at hnext

/-- A course that is listed can be reached. -/
theorem Edited.reachable {c : Course ω} {log : List (String × String)} (h : c.Edited log) :
    c.Reachable (fun _ _ => True) Editless := by
  induction h with
  | start metas rules quietPeriod shownFor => exact ⟨metas, rules, quietPeriod, shownFor, .refl⟩
  | step _ hlisten hready ih => exact ih.trans (.step .refl hlisten hready trivial)

end Course

end DeferredSave
