import DeferredSave.Engine.Edits
import DeferredSave.Engine.Flight
import DeferredSave.Proofs.Edit.Batch

/-!
# The course of an engine

What can happen to an engine, in any order: calls from outside, and the turns that it takes by
itself when a timer expires, when its flight takes off, and when the store answers. While listeners
are told of a status they may call the engine again.

A course is an engine together with what it has asked of the store so far and what is still to be
answered. `Course.Leads` says which courses follow from a course.
-/

namespace DeferredSave

variable {ω : Type}

/-! ## Events -/

/-- A call of the engine. -/
inductive Call (ω : Type) where
  | change (key value : String)
  | discard (keys? : Option (List String))
  | flushNow
  | refresh
  | close
  | subscribe (listener : String) (reply? : Option (Reply ω))
  | unsubscribe (handle : Nat)

/-- Whether a call has to wait for the store, so that a listener cannot make it while it is told. -/
def Call.waits : Call ω → Bool
  | flushNow | refresh => true
  | _ => false

/-- What the engine does by itself. -/
inductive Turn where
  | quietOver
  | shownOver
  /-- The flight that was asked for has its first turn. -/
  | takeOff
  /-- The store answers the batch of the flight. -/
  | updated (answer : Except Failure (List Setting))
  /-- The store answers the load that follows a save. -/
  | reloaded (answer : Except Failure Categories)
  /-- The store answers a load that was asked for from outside. -/
  | loaded (load : Nat) (answer : Except Failure Categories)

inductive Event (ω : Type) where
  | call (c : Call ω)
  | turn (t : Turn)
  /-- Time goes by. -/
  | wait (seconds : Rat)

namespace Engine

def call (acting : Acting ω) (g : Engine ω) : Call ω → Engine ω
  | .change key value => (g.change acting key value).1
  | .discard keys? => (g.discard acting keys?).1
  | .flushNow => g.flushNow.1
  | .refresh => g.refresh.1
  | .close => g.close
  | .subscribe listener reply? => g.subscribe listener reply?
  | .unsubscribe handle => g.unsubscribe handle

def turn (acting : Acting ω) (g : Engine ω) : Turn → Engine ω
  | .quietOver => quietOver { g with quiet := g.quiet.cancel }
  | .shownOver => shownOver acting { g with shown := g.shown.cancel }
  | .takeOff => g.takeOff acting
  | .updated answer => g.updated acting answer
  | .reloaded answer => g.reloaded acting answer
  | .loaded load answer => (g.finishLoad load answer).1

def after (acting : Acting ω) (g : Engine ω) : Event ω → Engine ω
  | .call c => g.call acting c
  | .turn t => g.turn acting t
  | .wait seconds => { g with now := g.now + seconds }

end Engine

/-! ## Listeners -/

/-- Listeners that leave the engine alone: at most they ask something of its surroundings. -/
def Aloof (acting : Engine.Acting ω) : Prop :=
  ∀ w g, ∃ ws : List ω, acting w g = { g with outbox := g.outbox ++ ws.map .order }

/-- Listeners that do nothing. -/
def Engine.silent : Engine.Acting ω := fun _ g => g

theorem aloof_silent : Aloof (Engine.silent : Engine.Acting ω) :=
  fun _ g => ⟨[], by simp [Engine.silent]⟩

/-- What a listener can turn an engine into by admitted calls, one after the other. What such a
call tells the listeners they act on by `inner`. -/
inductive Callback (admitted : Engine ω → Call ω → Prop) (inner : Engine.Acting ω) (g : Engine ω) :
    Engine ω → Prop where
  | none : Callback admitted inner g g
  | call {g' : Engine ω} (c : Call ω) :
      Callback admitted inner g g' → admitted g' c → c.waits = false →
      Callback admitted inner g (g'.call inner c)
  | order {g' : Engine ω} (w : ω) :
      Callback admitted inner g g' → Callback admitted inner g (g'.emit (.order w))

/-- Listeners that make admitted calls only, nested to any depth. -/
inductive Listening (admitted : Engine ω → Call ω → Prop) : Engine.Acting ω → Prop where
  | aloof {acting : Engine.Acting ω} : Aloof acting → Listening admitted acting
  | calling {inner acting : Engine.Acting ω} :
      Listening admitted inner → (∀ w g, Callback admitted inner g (acting w g)) →
      Listening admitted acting

theorem Aloof.listening {acting : Engine.Acting ω} (h : Aloof acting) :
    Listening (fun _ _ => True) acting :=
  .aloof h

/-! ## Courses -/

/-- A call of the store. -/
inductive StoreCall where
  | update (batch : Batch)
  | fetch
deriving DecidableEq, Repr

def StoreCall.batch? : StoreCall → Option Batch
  | update batch => some batch
  | fetch => none

/-- The call of the store that an effect asks for. -/
def Effect.storeCall? : Effect ω → Option StoreCall
  | .update batch => some (.update batch)
  | .reload => some .fetch
  | _ => none

/-- The calls of the store that the outbox holds. -/
def Engine.asks (g : Engine ω) : List StoreCall := g.outbox.filterMap Effect.storeCall?

/-- What a flight waits for. -/
inductive Errand where
  /-- Its first turn. -/
  | takeOff
  | update (batch : Batch)
  | reload
deriving DecidableEq, Repr

/-- What an effect asks for on behalf of a flight. -/
def Effect.errand? : Effect ω → Option Errand
  | .takeOff => some .takeOff
  | .update batch => some (.update batch)
  | .reload => some .reload
  | _ => none

/-- What the outbox asks for on behalf of flights. -/
def Engine.errands (g : Engine ω) : List Errand := g.outbox.filterMap Effect.errand?

/-- The batch that a flight has taken. -/
def Flight.batch? : Flight → Option Batch
  | saving batch | reloading batch .. => some batch
  | none | waiting => Option.none

/-- An engine in the course of events. -/
structure Course (ω : Type) where
  engine : Engine ω
  /-- The loads that were asked for from outside and are not answered yet. -/
  loads : List Nat := []
  /-- All calls of the store so far. -/
  asked : List StoreCall := []
  /-- The batches that the store has answered with success. -/
  stored : List Batch := []

namespace Course

def start (metas : MetaTable) (rules : List CrossRule) (quietPeriod shownFor : Rat) : Course ω :=
  { engine := .new metas rules quietPeriod shownFor }

/-- The batches that the store was called with. -/
def sent (c : Course ω) : List Batch := c.asked.filterMap StoreCall.batch?

/-- No batch so far holds the edit. -/
def Unsent (c : Course ω) (e : Edit) : Prop := ∀ batch ∈ c.sent, ¬ batch.Holds e

instance (c : Course ω) (e : Edit) : Decidable (c.Unsent e) :=
  inferInstanceAs (Decidable (∀ batch ∈ c.sent, ¬ batch.Holds e))

/-- Whether an event can happen now. Timers may be late, and the store takes its time. -/
def Ready (c : Course ω) : Event ω → Prop
  | .call _ => True
  | .wait seconds => 0 ≤ seconds
  | .turn .quietOver => (c.engine.quiet.due? c.engine.now).isSome
  | .turn .shownOver => (c.engine.shown.due? c.engine.now).isSome
  | .turn .takeOff => c.engine.flight = .waiting
  | .turn (.updated _) => ∃ batch, c.engine.flight = .saving batch
  | .turn (.reloaded _) => ∃ batch rows load, c.engine.flight = .reloading batch rows load
  | .turn (.loaded load _) => load ∈ c.loads

instance (c : Course ω) : (ev : Event ω) → Decidable (c.Ready ev)
  | .call _ => isTrue trivial
  | .wait seconds => inferInstanceAs (Decidable (0 ≤ seconds))
  | .turn .quietOver =>
    inferInstanceAs (Decidable ((c.engine.quiet.due? c.engine.now).isSome = true))
  | .turn .shownOver =>
    inferInstanceAs (Decidable ((c.engine.shown.due? c.engine.now).isSome = true))
  | .turn .takeOff => inferInstanceAs (Decidable (c.engine.flight = .waiting))
  | .turn (.updated _) =>
    match h : c.engine.flight with
    | .saving batch => isTrue ⟨batch, h⟩
    | .none | .waiting | .reloading .. => isFalse fun ⟨_, h'⟩ => nomatch h.symm.trans h'
  | .turn (.reloaded _) =>
    match h : c.engine.flight with
    | .reloading batch rows load => isTrue ⟨batch, rows, load, h⟩
    | .none | .waiting | .saving _ => isFalse fun ⟨_, _, _, h'⟩ => nomatch h.symm.trans h'
  | .turn (.loaded load _) => inferInstanceAs (Decidable (load ∈ c.loads))

/-- The loads that are not answered yet after an event. -/
def loadsAfter (c : Course ω) : Event ω → List Nat
  | .call .refresh => if c.engine.closed then c.loads else c.loads ++ [c.engine.loads + 1]
  | .turn (.loaded load _) => c.loads.erase load
  | _ => c.loads

/-- The calls of the store that an event makes on behalf of a caller. -/
def askedFor (c : Course ω) : Event ω → List StoreCall
  | .call .refresh => if c.engine.closed then [] else [.fetch]
  | _ => []

/-- The batches that are stored after an event. -/
def storedAfter (c : Course ω) : Event ω → List Batch
  | .turn (.updated (.ok _)) => c.stored ++ c.engine.flight.batch?.toList
  | _ => c.stored

def after (acting : Engine.Acting ω) (c : Course ω) (ev : Event ω) : Course ω :=
  let g := c.engine.after acting ev
  { engine := { g with outbox := [] }
    loads := c.loadsAfter ev
    asked := c.asked ++ (g.asks ++ c.askedFor ev)
    stored := c.storedAfter ev }

/-- The courses that follow from a course by events of a kind, one after the other, with listeners
of a kind. -/
inductive Leads (events : Course ω → Event ω → Prop) (listeners : Engine.Acting ω → Prop)
    (c : Course ω) : Course ω → Prop where
  | refl : Leads events listeners c c
  | step {c' : Course ω} {acting : Engine.Acting ω} {ev : Event ω} :
      Leads events listeners c c' → listeners acting → c'.Ready ev → events c' ev →
      Leads events listeners c (c'.after acting ev)

/-- The courses of an engine from its start on. -/
def Reachable (events : Course ω → Event ω → Prop) (listeners : Engine.Acting ω → Prop)
    (c : Course ω) : Prop :=
  ∃ metas rules quietPeriod shownFor,
    (start metas rules quietPeriod shownFor).Leads events listeners c

theorem Leads.mono {events events' : Course ω → Event ω → Prop}
    {listeners listeners' : Engine.Acting ω → Prop} {c c' : Course ω}
    (h : c.Leads events listeners c') (hevents : ∀ c ev, events c ev → events' c ev)
    (hlisteners : ∀ acting, listeners acting → listeners' acting) :
    c.Leads events' listeners' c' := by
  induction h with
  | refl => exact .refl
  | step _ hlisten hready hev ih =>
    exact ih.step (hlisteners _ hlisten) hready (hevents _ _ hev)

theorem Leads.trans {events : Course ω → Event ω → Prop} {listeners : Engine.Acting ω → Prop}
    {c c' c'' : Course ω} (h : c.Leads events listeners c') (h' : c'.Leads events listeners c'') :
    c.Leads events listeners c'' := by
  induction h' with
  | refl => exact h
  | step _ hlisten hready hev ih => exact ih.step hlisten hready hev

theorem Reachable.mono {events events' : Course ω → Event ω → Prop}
    {listeners listeners' : Engine.Acting ω → Prop} {c : Course ω}
    (h : c.Reachable events listeners) (hevents : ∀ c ev, events c ev → events' c ev)
    (hlisteners : ∀ acting, listeners acting → listeners' acting) :
    c.Reachable events' listeners' := by
  obtain ⟨metas, rules, quietPeriod, shownFor, hleads⟩ := h
  exact ⟨metas, rules, quietPeriod, shownFor, hleads.mono hevents hlisteners⟩

theorem Reachable.trans {events : Course ω → Event ω → Prop} {listeners : Engine.Acting ω → Prop}
    {c c' : Course ω} (h : c.Reachable events listeners) (h' : c.Leads events listeners c') :
    c'.Reachable events listeners := by
  obtain ⟨metas, rules, quietPeriod, shownFor, hleads⟩ := h
  exact ⟨metas, rules, quietPeriod, shownFor, hleads.trans h'⟩

/-! ## Runs -/

/-- The course after some events, while listeners do the same all the time. -/
def run (acting : Engine.Acting ω) (c : Course ω) (evs : List (Event ω)) : Course ω :=
  evs.foldl (after acting) c

/-- Each of the events can happen when its turn comes. -/
def Runs (acting : Engine.Acting ω) (c : Course ω) : List (Event ω) → Prop
  | [] => True
  | ev :: evs => c.Ready ev ∧ (c.after acting ev).Runs acting evs

instance (acting : Engine.Acting ω) (c : Course ω) :
    (evs : List (Event ω)) → Decidable (c.Runs acting evs)
  | [] => isTrue trivial
  | ev :: evs =>
    have := instDecidableRuns acting (c.after acting ev) evs
    inferInstanceAs (Decidable (_ ∧ _))

/-- Each of the events is of a kind when its turn comes. -/
def Meets (events : Course ω → Event ω → Prop) (acting : Engine.Acting ω) (c : Course ω) :
    List (Event ω) → Prop
  | [] => True
  | ev :: evs => events c ev ∧ (c.after acting ev).Meets events acting evs

section

variable {events : Course ω → Event ω → Prop} {listeners : Engine.Acting ω → Prop}
  {acting : Engine.Acting ω} {c : Course ω} {evs : List (Event ω)}

theorem Meets.leads (h : c.Meets events acting evs) (hlisten : listeners acting)
    (hruns : c.Runs acting evs) : c.Leads events listeners (c.run acting evs) := by
  -- the first event leads to the course from which the others are a run
  induction evs generalizing c with
  | nil => exact .refl
  | cons ev evs ih =>
    exact (Leads.refl.step hlisten hruns.1 h.1).trans (ih h.2 hruns.2)

theorem meets_of_forall (h : ∀ c, ∀ ev ∈ evs, events c ev) : c.Meets events acting evs := by
  induction evs generalizing c with
  | nil => trivial
  | cons ev evs ih =>
    exact ⟨h c ev List.mem_cons_self, ih fun c ev' hev' => h c ev' (List.mem_cons_of_mem _ hev')⟩

theorem leads_run (hlisten : listeners acting) (hruns : c.Runs acting evs)
    (hevents : ∀ c, ∀ ev ∈ evs, events c ev) : c.Leads events listeners (c.run acting evs) :=
  (meets_of_forall hevents).leads hlisten hruns

end

end Course

end DeferredSave
