import DeferredSave.Proofs.Exchange.Continuity
import DeferredSave.Proofs.Store.Memory

/-!
# What the store ends up with

A store in memory that nobody else writes to has the value of the last edit of each key, as soon as
the edit has left the buffer by itself (`Exchange.last_value_is_stored`). A save may have failed
before, also one that was stored all the same; batches are stored one after the other, and the edit
leaves only with a batch that holds it.
-/

namespace DeferredSave

variable {ω : Type}

/-! ## A store in memory as a backend -/

/-- A store in memory that the engine alone writes to. A batch may be stored at any time of day. -/
def MemoryStore.holder : Holder where
  writes := fun _ _ => False
  stores := fun batch h h' rows => ∃ (m m' : MemoryStore) (now : Stamp),
    m.Keyed ∧ m.held = h ∧ m.update now batch = (m', .ok rows) ∧ m'.held = h'

/-- The backend as far as batches without repeated keys go. -/
def Holder.distinct (b : Holder) : Holder :=
  { b with stores := fun batch h h' rows => batch.keys.Nodup ∧ b.stores batch h h' rows }

/-- Batches without repeated keys are stored as they are. -/
theorem MemoryStore.holder_verbatim : MemoryStore.holder.distinct.Verbatim where
  sole := id
  entries := by
    rintro batch h h' rows ⟨hdistinct, m, m', now, hkeyed, rfl, hupdate, rfl⟩
    exact (hkeyed.update hdistinct hupdate).each
  answers := by
    rintro batch h h' rows ⟨hdistinct, m, m', now, hkeyed, rfl, hupdate, rfl⟩
    exact (hkeyed.update hdistinct hupdate).answers
  others := by
    rintro batch h h' rows ⟨hdistinct, m, m', now, hkeyed, rfl, hupdate, rfl⟩
    exact (hkeyed.update hdistinct hupdate).others

namespace Exchange

variable {b : Holder} {events : Course ω → Event ω → Prop} {admitted : Engine ω → Call ω → Prop}
  {x x' : Exchange ω} {e : Edit}

/-! ## Batches of an engine -/

/-- An engine sends no batch with repeated keys. -/
theorem Step.distinct (h : Step b events (Listening admitted) x x') (hsound : x.course.Sound) :
    Step b.distinct events (Listening admitted) x x' := by
  cases h with
  | event hlisten hready hev hanswers => exact .event hlisten hready hev hanswers
  | write hwrites => exact .write hwrites
  | @store batch _ _ hsaving hnone hstores =>
    have hledger : Ledger x.course.sent x.engine := hsound.ledger
    have hbatch : x.engine.flight.batch? = some batch := by rw [hsaving]; rfl
    have hdistinct := (hledger.knows batch (hledger.flight batch hbatch)).distinct
    exact .store hsaving hnone ⟨hdistinct, hstores⟩
  | read load => exact .read load

theorem Leads.distinct (h : Leads b events (Listening admitted) x x') (hsound : x.course.Sound) :
    Leads b.distinct events (Listening admitted) x x' := by
  induction h with
  | refl => exact .refl
  | tail hsteps hstep ih =>
    exact ih.tail (hstep.distinct ((Leads.course hsteps).sound (fun _ => id) hsound))

/-- What is held is what a store in memory holds. -/
def InMemory (x : Exchange ω) : Prop := ∃ m : MemoryStore, m.Keyed ∧ m.held = x.held

theorem InMemory.step (hx : InMemory x)
    (hstep : Step MemoryStore.holder.distinct events (Listening admitted) x x') : InMemory x' := by
  cases hstep with
  | event | read => exact hx
  | write hwrites => exact hwrites.elim
  | store _ _ hstores =>
    obtain ⟨hdistinct, m, m', now, hkeyed, -, hupdate, rfl⟩ := hstores
    exact ⟨m', (hkeyed.update hdistinct hupdate).keyed, rfl⟩

theorem Leads.inMemory (h : Leads MemoryStore.holder.distinct events (Listening admitted) x x')
    (hx : InMemory x) : InMemory x' := by
  induction h with
  | refl => exact hx
  | tail _ hstep ih => exact ih.step hstep

/-! ## The last edit of a key -/

/-- A store in memory that nobody else writes to holds the value of the last edit of a key, unless
the key is still in the buffer or the edit was dropped from outside. Saves and loads may take any
time, and they may fail; a save that fails may have been stored before. -/
theorem last_value_is_stored {metas : MetaTable} {rules : List CrossRule}
    {quietPeriod shownFor : Rat} {catalog : Catalog} {seed : Categories} {actor : Option String}
    {x₀ : Exchange ω}
    (hx₀ : Leads MemoryStore.holder (fun _ _ => True) (Listening fun _ _ => True)
      (start metas rules quietPeriod shownFor catalog (MemoryStore.ofCategories seed actor).held)
      x₀)
    (he : e ∈ x₀.engine.edits.edits)
    (hx : Leads MemoryStore.holder (Course.Retains e.key) (Listening (Engine.Retains e.key)) x₀ x)
    (hgone : ∀ e' ∈ x.engine.edits.edits, e'.key ≠ e.key) :
    x.held.Bears e ∧ ∃ m : MemoryStore, m.Keyed ∧ m.held = x.held ∧ m.fetch.Shows x.held := by
  have hstart : Regular (start metas rules quietPeriod shownFor catalog
      (MemoryStore.ofCategories seed actor).held : Exchange ω) :=
    regular_start metas rules quietPeriod shownFor catalog _
  have hx₀' := hx₀.distinct hstart.sound
  have hregular : Regular x₀ := hx₀'.regular MemoryStore.holder_verbatim hstart
  have hx' := hx.distinct hregular.sound
  have hcontinues : Continues e x := Leads.retained hx' MemoryStore.holder_verbatim
    ⟨hregular, Engine.only_of_mem hregular.sound.ledger he, .inl he⟩
  have hsaved : Saved e x := hcontinues.value.resolve_left fun hthere => hgone e hthere rfl
  obtain ⟨m, hkeyed, hheld⟩ : InMemory x :=
    hx'.inMemory (hx₀'.inMemory ⟨_, MemoryStore.keyed_ofCategories seed actor, rfl⟩)
  exact ⟨hsaved.secured.held, m, hkeyed, hheld, hheld ▸ hkeyed.find?_fetch⟩

/-! ## A save that fails after it was stored -/

def oldStore : MemoryStore := .ofCategories (showing (rowAt "old" 0)) none

/-- The time of day at some second. -/
def second (n : Nat) : Stamp := { Stamp.epoch with second := n }

def firstStore : MemoryStore := (oldStore.update (second 1) ⟨[("key", "first")], [1]⟩).1

def lastStore : MemoryStore := (firstStore.update (second 2) ⟨[("key", "last")], [2]⟩).1

theorem stores_first :
    MemoryStore.holder.stores ⟨[("key", "first")], [1]⟩ oldStore.held firstStore.held
      [rowAt "first" 1] :=
  ⟨oldStore, firstStore, second 1, MemoryStore.keyed_ofCategories _ _, rfl, rfl, rfl⟩

theorem stores_last :
    MemoryStore.holder.stores ⟨[("key", "last")], [2]⟩ firstStore.held lastStore.held
      [rowAt "last" 2] := by
  have hfirst : oldStore.update (second 1) ⟨[("key", "first")], [1]⟩ =
      (firstStore, .ok [rowAt "first" 1]) := rfl
  have hkeyed : firstStore.Keyed :=
    ((MemoryStore.keyed_ofCategories _ _).update (by decide) hfirst).keyed
  exact ⟨firstStore, lastStore, second 2, hkeyed, rfl, rfl, rfl⟩

/-- A batch is stored and fails all the same, and then its key is edited again. -/
def editedAgain : Exchange Unit :=
  (start [] [] 1 1 .empty oldStore.held).run .silent
    [.event (.call (.change "key" "first")), .event (.call .flushNow), .event (.turn .takeOff),
      .store firstStore.held [rowAt "first" 1],
      .event (.turn (.updated (.error (.plain .connection none)))),
      .event (.call (.change "key" "last"))]

/-- The edit is saved, and later what is left in the buffer is dropped. -/
def savedAgain : Exchange Unit :=
  editedAgain.run .silent
    [.event (.call .flushNow), .event (.turn .takeOff), .store lastStore.held [rowAt "last" 2],
      .event (.turn (.updated (.ok [rowAt "last" 2]))),
      .event (.turn (.reloaded (.error (.plain .fetch none)))), .event (.call (.discard none))]

theorem last_save_is_stored :
    savedAgain.engine.edits.edits = [] ∧ savedAgain.held.Bears ⟨"key", "last", 2⟩ := by
  have hedited : Leads MemoryStore.holder (fun _ _ => True) (Listening fun _ _ => True)
      (start [] [] 1 1 .empty oldStore.held) editedAgain := by
    apply Runs.leads _ (.aloof aloof_silent)
    exact ⟨⟨trivial, trivial, trivial⟩, ⟨trivial, trivial, trivial⟩, ⟨rfl, trivial, trivial⟩,
      ⟨_, rfl, rfl, stores_first⟩, ⟨⟨_, rfl⟩, trivial, trivial⟩, ⟨trivial, trivial, trivial⟩,
      trivial⟩
  have hsaved : Leads MemoryStore.holder (Course.Retains "key")
      (Listening (Engine.Retains "key")) editedAgain savedAgain := by
    apply Runs.leads _ (.aloof aloof_silent)
    exact ⟨⟨trivial, trivial, trivial⟩, ⟨rfl, trivial, trivial⟩, ⟨_, rfl, rfl, stores_last⟩,
      ⟨⟨_, rfl⟩, trivial, rfl⟩, ⟨⟨_, _, _, rfl⟩, trivial, trivial⟩, ⟨trivial, nofun, trivial⟩,
      trivial⟩
  have hedit : ⟨"key", "last", 2⟩ ∈ editedAgain.engine.edits.edits := List.mem_singleton.2 rfl
  have hgone : savedAgain.engine.edits.edits = [] := rfl
  refine ⟨hgone, (last_value_is_stored hedited hedit hsaved ?_).1⟩
  rw [hgone]
  nofun

end Exchange

end DeferredSave
