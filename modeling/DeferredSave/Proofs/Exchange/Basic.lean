import DeferredSave.Proofs.Catalog.Patch
import DeferredSave.Proofs.Course.Ledger
import DeferredSave.Proofs.Course.Loading
import Mathlib.Logic.Function.Basic
import Mathlib.Logic.Relation

/-!
# An engine and its backend

The course of an engine together with what the backend holds. The backend takes effect in steps of
its own: other clients write to it, it stores the batch that is under way, and it looks at what it
holds on behalf of a load. All this can happen at any time between a call of the store and its
answer, and in any order. An answer that reports success tells what was found at that time; a batch
whose save fails may have been stored all the same.
-/

namespace DeferredSave

variable {ω : Type}

/-- What the backend holds: the row of each key. -/
abbrev Holdings := String → Option Setting

/-- How the holdings of a backend can change. -/
structure Holder where
  /-- By a write of another client. -/
  writes : Holdings → Holdings → Prop
  /-- By a batch of the engine, which is answered with the given rows. -/
  stores : Batch → Holdings → Holdings → List Setting → Prop

/-- A catalog with just the rows that are held. -/
def Categories.Shows (categories : Categories) (held : Holdings) : Prop :=
  ∀ key, (Catalog.mk categories).find? key = held key

theorem Categories.Shows.find?_eq {categories : Categories} {held : Holdings}
    (h : categories.Shows held) : (Catalog.mk categories).find? = held :=
  funext h

/-- The last of the rows that an answer gives for a key is what is held of it. -/
theorem held_of_lastOf? {rows : List Setting} {held : Holdings} {key : String} {row : Setting}
    (hrows : ∀ row ∈ rows, held row.key = some row) (hlast : Catalog.lastOf? rows key = some row) :
    held key = some row := by
  have hheld := hrows row (Catalog.mem_of_lastOf? hlast)
  rwa [Catalog.key_of_lastOf? hlast] at hheld

structure Exchange (ω : Type) where
  course : Course ω
  held : Holdings
  /-- What each load finds if it is answered now. -/
  read : Nat → Holdings
  /-- The rows for the answer to the batch that is under way, once it is stored. -/
  stored : Option (List Setting) := none

namespace Exchange

def engine (x : Exchange ω) : Engine ω := x.course.engine

/-- What the newest load finds. -/
def newest (x : Exchange ω) : Holdings := x.read x.engine.loads

/-- An engine with any catalog, and no load that was asked for. -/
def start (metas : MetaTable) (rules : List CrossRule) (quietPeriod shownFor : Rat)
    (catalog : Catalog) (held : Holdings) : Exchange ω :=
  { course := { engine := { Engine.new metas rules quietPeriod shownFor with catalog } }
    held
    read := fun _ => held }

/-! ## Steps -/

/-- What the backend can answer. -/
def Answers (x : Exchange ω) : Event ω → Prop
  | .turn (.updated (.ok rows)) => x.stored = some rows
  | .turn (.reloaded (.ok categories)) =>
    -- the flight knows which load it waits for
    ∀ batch rows load, x.engine.flight = .reloading batch rows load →
      categories.Shows (x.read load)
  | .turn (.loaded load (.ok categories)) => categories.Shows (x.read load)
  | _ => True

/-- The rows for the answer to the batch that is under way after an event. -/
def storedAfter (x : Exchange ω) : Event ω → Option (List Setting)
  | .turn (.updated _) => none
  | _ => x.stored

/-- A load that starts finds what is held by then. -/
def after (acting : Engine.Acting ω) (x : Exchange ω) (ev : Event ω) : Exchange ω :=
  { course := x.course.after acting ev
    held := x.held
    -- loads are numbered upwards, so those that start now have a greater number
    read := fun load => if x.engine.loads < load then x.held else x.read load
    stored := x.storedAfter ev }

/-- One step of the engine or of the backend. -/
inductive Step (b : Holder) (events : Course ω → Event ω → Prop)
    (listeners : Engine.Acting ω → Prop) (x : Exchange ω) : Exchange ω → Prop where
  | event {acting : Engine.Acting ω} {ev : Event ω} :
      listeners acting → x.course.Ready ev → events x.course ev → x.Answers ev →
      Step b events listeners x (x.after acting ev)
  | write {held : Holdings} : b.writes x.held held → Step b events listeners x { x with held }
  /-- The batch that is under way is stored, at most once. -/
  | store {batch : Batch} {held : Holdings} {rows : List Setting} :
      x.engine.flight = .saving batch → x.stored = none → b.stores batch x.held held rows →
      Step b events listeners x { x with held, stored := some rows }
  | read (load : Nat) :
      Step b events listeners x { x with read := Function.update x.read load x.held }

/-- The exchanges that follow from an exchange, step by step. -/
def Leads (b : Holder) (events : Course ω → Event ω → Prop) (listeners : Engine.Acting ω → Prop) :
    Exchange ω → Exchange ω → Prop :=
  Relation.ReflTransGen (Step b events listeners)

section

variable {b : Holder} {events : Course ω → Event ω → Prop} {listeners : Engine.Acting ω → Prop}
  {admitted : Engine ω → Call ω → Prop} {acting : Engine.Acting ω} {x x' : Exchange ω}

theorem Step.mono {events' : Course ω → Event ω → Prop} {listeners' : Engine.Acting ω → Prop}
    (h : Step b events listeners x x') (hevents : ∀ c ev, events c ev → events' c ev)
    (hlisteners : ∀ acting, listeners acting → listeners' acting) :
    Step b events' listeners' x x' := by
  cases h with
  | event hlisten hready hev hanswers =>
    exact .event (hlisteners _ hlisten) hready (hevents _ _ hev) hanswers
  | write hwrites => exact .write hwrites
  | store hsaving hnone hstores => exact .store hsaving hnone hstores
  | read load => exact .read load

theorem Leads.mono {events' : Course ω → Event ω → Prop} {listeners' : Engine.Acting ω → Prop}
    (h : Leads b events listeners x x') (hevents : ∀ c ev, events c ev → events' c ev)
    (hlisteners : ∀ acting, listeners acting → listeners' acting) :
    Leads b events' listeners' x x' :=
  Relation.ReflTransGen.mono (fun _ _ hstep => Step.mono hstep hevents hlisteners) _ _ h

/-- The engine does not know what the backend does. -/
theorem Leads.course (h : Leads b events listeners x x') :
    x.course.Leads events listeners x'.course := by
  induction h with
  | refl => exact .refl
  | tail _ hstep ih =>
    cases hstep with
    | event hlisten hready hev _ => exact ih.step hlisten hready hev
    | write | store | read => exact ih

/-! ## What loads find -/

theorem read_after {P : Holdings → Prop} (hheld : P x.held) (hread : ∀ load, P (x.read load))
    (ev : Event ω) (load : Nat) : P ((x.after acting ev).read load) := by
  unfold after
  dsimp only
  split
  · exact hheld
  · exact hread load

theorem read_look {P : Holdings → Prop} (hheld : P x.held) (hread : ∀ load, P (x.read load))
    (load : Nat) : ∀ load', P (Function.update x.read load x.held load') :=
  (Function.forall_update_iff x.read fun _ => P).2 ⟨hheld, fun load' _ => hread load'⟩

theorem newest_of_starts {ev : Event ω} (h : x.engine.loads < (x.after acting ev).engine.loads) :
    (x.after acting ev).newest = x.held :=
  if_pos h

/-- After an event the newest load is the one of before, or finds what is held now. -/
theorem newest_after (hlisten : Listening admitted acting) (x : Exchange ω) (ev : Event ω) :
    (x.after acting ev).newest = x.newest ∨ (x.after acting ev).newest = x.held := by
  have hloads : x.engine.loads ≤ (x.after acting ev).engine.loads :=
    (Engine.shelves_after hlisten x.engine ev).loads
  obtain heq | hstarts := Nat.eq_or_lt_of_le hloads
  · left
    have hold : ¬ x.engine.loads < (x.after acting ev).engine.loads := by omega
    exact (if_neg hold).trans (congrArg x.read heq.symm)
  · exact .inr (newest_of_starts hstarts)

theorem newest_look (x : Exchange ω) (load : Nat) :
    newest { x with read := Function.update x.read load x.held } = x.newest ∨
      newest { x with read := Function.update x.read load x.held } = x.held := by
  by_cases h : x.engine.loads = load
  · right
    subst h
    exact Function.update_self ..
  · left
    exact Function.update_of_ne h ..

/-! ## What answers bring -/

/-- The load that follows a save is still to be answered after an event if it was before, or if the
batch was stored and the load starts now. -/
theorem reloading_after (hlisten : Listening admitted acting) {ev : Event ω}
    (hanswers : x.Answers ev) {batch : Batch} {rows : List Setting} {load : Nat}
    (h : (x.after acting ev).engine.flight = .reloading batch rows load) :
    x.engine.flight = .reloading batch rows load ∨
      x.engine.flight = .saving batch ∧ x.stored = some rows ∧
        (x.after acting ev).newest = x.held := by
  cases Engine.flown_after hlisten x.engine ev with
  | stays hstays => exact .inl (hstays ▸ h)
  | asked _ hasked => cases hasked.symm.trans h
  | rounded hrounded =>
    obtain hr | ⟨_, hr⟩ := hrounded <;> cases hr.symm.trans h
  | reloads hsaving hev hreloads =>
    -- the answer is what was stored, and the load that starts is the newest one
    subst hev
    cases hreloads.symm.trans h
    refine .inr ⟨hsaving, hanswers, newest_of_starts ?_⟩
    change x.engine.loads < (x.engine.updated acting (.ok rows)).loads
    rw [Engine.loads_of_reloads hsaving hreloads]
    exact Nat.lt_succ_self _

/-- What the catalog is after an event: the one of before, what the newest load finds, or the one of
before with the rows of a save. -/
inductive Shown (x : Exchange ω) (ev : Event ω) (c : Catalog) : Prop where
  | stays : c = x.engine.catalog → Shown x ev c
  | found : c.find? = x.newest → Shown x ev c
  | patched {batch : Batch} {rows : List Setting} {load : Nat}
      {answer : Except Failure Categories} :
      x.engine.flight = .reloading batch rows load → ev = .turn (.reloaded answer) →
      x.engine.closed = false → (∀ f, answer = .error f → f.isFetch = true) →
      x.engine.installs load answer = false → c = x.engine.catalog.withUpdates rows → Shown x ev c

theorem shown_after (hlisten : Listening admitted acting) {ev : Event ω}
    (hanswers : x.Answers ev) : Shown x ev (x.after acting ev).engine.catalog := by
  change Shown x ev (x.engine.after acting ev).catalog
  cases (Engine.shelves_after hlisten x.engine ev).catalog with
  | stays hstays => exact .stays hstays
  | loaded hev hloaded =>
    subst hev
    exact .found (hloaded ▸ Categories.Shows.find?_eq hanswers)
  | reloaded hflight hev hloaded =>
    subst hev
    exact .found (hloaded ▸ Categories.Shows.find?_eq (hanswers _ _ _ hflight))
  | patched hflight hev hopen hanswer hinstalls hpatched =>
    exact .patched hflight hev hopen hanswer hinstalls hpatched

end

/-! ## Runs -/

/-- One step of the engine or of the backend, with all that it depends on. -/
inductive Move (ω : Type) where
  | event (ev : Event ω)
  | write (held : Holdings)
  | store (held : Holdings) (rows : List Setting)
  | read (load : Nat)

def move (acting : Engine.Acting ω) (x : Exchange ω) : Move ω → Exchange ω
  | .event ev => x.after acting ev
  | .write held => { x with held }
  | .store held rows => { x with held, stored := some rows }
  | .read load => { x with read := Function.update x.read load x.held }

/-- Whether a step can be made now. -/
def Allows (b : Holder) (events : Course ω → Event ω → Prop) (x : Exchange ω) : Move ω → Prop
  | .event ev => x.course.Ready ev ∧ events x.course ev ∧ x.Answers ev
  | .write held => b.writes x.held held
  | .store held rows => ∃ batch, x.engine.flight = .saving batch ∧ x.stored = none ∧
      b.stores batch x.held held rows
  | .read _ => True

/-- The exchange after some steps, while listeners do the same all the time. -/
def run (acting : Engine.Acting ω) (x : Exchange ω) (moves : List (Move ω)) : Exchange ω :=
  moves.foldl (move acting) x

/-- Each of the steps can be made when its turn comes. -/
def Runs (b : Holder) (events : Course ω → Event ω → Prop) (acting : Engine.Acting ω)
    (x : Exchange ω) : List (Move ω) → Prop
  | [] => True
  | m :: moves => x.Allows b events m ∧ (x.move acting m).Runs b events acting moves

section

variable {b : Holder} {events : Course ω → Event ω → Prop} {listeners : Engine.Acting ω → Prop}
  {acting : Engine.Acting ω} {x : Exchange ω}

theorem Allows.step {m : Move ω} (h : x.Allows b events m) (hlisten : listeners acting) :
    Step b events listeners x (x.move acting m) := by
  cases m with
  | event ev => exact .event hlisten h.1 h.2.1 h.2.2
  | write held => exact .write h
  | store held rows =>
    obtain ⟨batch, hflight, hnone, hstores⟩ := h
    exact .store hflight hnone hstores
  | read load => exact .read load

theorem Runs.leads {moves : List (Move ω)} (h : x.Runs b events acting moves)
    (hlisten : listeners acting) : Leads b events listeners x (x.run acting moves) := by
  induction moves generalizing x with
  | nil => exact .refl
  | cons m moves ih => exact .head (h.1.step hlisten) (ih h.2)

end

theorem sound_start (metas : MetaTable) (rules : List CrossRule) (quietPeriod shownFor : Rat)
    (catalog : Catalog) (held : Holdings) :
    (start metas rules quietPeriod shownFor catalog held : Exchange ω).course.Sound where
  said := rfl
  ledger := (Course.sound_start metas rules quietPeriod shownFor).ledger.of_eq rfl rfl rfl

/-! ## A backend with one row -/

/-- A row with a second to its stamp. -/
def rowAt (value : String) (second : Nat) : Setting :=
  ⟨"key", value, none, { Stamp.epoch with second }, none⟩

def holding (row : Setting) : Holdings := fun key => if row.key = key then some row else none

def showing (row : Setting) : Categories := [("general", [row])]

theorem showing_shows (row : Setting) : (showing row).Shows (holding row) := by
  intro key
  by_cases h : row.key = key <;> simp [Catalog.find?, Catalog.rows, showing, holding, h]

theorem holding_of_mem {row : Setting} : ∀ row' ∈ [row], holding row row'.key = some row' := by
  intro row' hrow'
  cases List.mem_singleton.1 hrow'
  exact if_pos rfl

end Exchange

end DeferredSave
