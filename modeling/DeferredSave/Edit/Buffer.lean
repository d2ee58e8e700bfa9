import DeferredSave.Setting

/-! Edits that are not saved yet.

The buffer holds one edit per key, in the order in which the edits were made; editing a key again
moves it to the end. Every edit has a revision of its own, and revisions only grow, so a batch that
was taken earlier can tell the edits it holds from newer ones of the same keys. -/

namespace DeferredSave

/-- An edit of one key. -/
structure Edit where
  key : String
  value : String
  revision : Int
deriving DecidableEq, Repr

/-- A copy of the buffer at one moment: what is to be stored, and the revision of each entry. A
batch that was not taken from a buffer may have any revisions. -/
structure Batch where
  entries : List (String × String)
  revisions : List Int
deriving DecidableEq, Repr

structure EditBuffer where
  edits : List Edit := []
  /-- The greatest revision that was given to an edit. -/
  issued : Int := 0
deriving DecidableEq, Repr

/-! ### Batches -/

namespace Batch

/-- A batch from outside of any buffer. Its revision is zero, which no edit has. -/
def ofEntries (entries : List (String × String)) : Batch :=
  ⟨entries, entries.map fun _ => 0⟩

def keys (b : Batch) : List String := b.entries.map (·.1)

def isEmpty (b : Batch) : Bool := b.entries.isEmpty

/-- The updates that store the batch, in order. An update has a key that is not empty. -/
def updates (b : Batch) : Checked (List Update) :=
  match b.entries.find? (·.1 = "") with
  | some _ => (Checked.fault .textTooShort).below (.field "key")
  | none => .ok (b.entries.map fun (key, value) => ⟨key, value⟩)

end Batch

/-- A batch with more or fewer revisions than entries. -/
inductive LengthMismatch where
  | tooFewRevisions | tooManyRevisions
deriving DecidableEq, Repr

def LengthMismatch.message : LengthMismatch → String
  | tooFewRevisions => "zip() argument 2 is shorter than argument 1"
  | tooManyRevisions => "zip() argument 2 is longer than argument 1"

/-- A key that is no longer there when it is to be removed. -/
structure MissingKey where
  key : String
deriving DecidableEq, Repr

namespace EditBuffer

/-! ### Looking -/

def isEmpty (b : EditBuffer) : Bool := b.edits.isEmpty

def size (b : EditBuffer) : Nat := b.edits.length

def keys (b : EditBuffer) : List String := b.edits.map (·.key)

def items (b : EditBuffer) : List (String × String) := b.edits.map fun e => (e.key, e.value)

/-- The edit of a key. -/
def find? (b : EditBuffer) (key : String) : Option Edit := b.edits.find? (·.key = key)

/-- The value of the edit of a key. -/
def get? (b : EditBuffer) (key : String) : Option String := (b.find? key).map (·.value)

def contains (b : EditBuffer) (key : String) : Bool := (b.find? key).isSome

/-! ### Changing -/

/-- Drops the edit of a key. -/
def erase (b : EditBuffer) (key : String) : EditBuffer :=
  { b with edits := b.edits.filter (·.key ≠ key) }

/-- Makes an edit. -/
def set (b : EditBuffer) (key value : String) : EditBuffer :=
  let revision := b.issued + 1
  { edits := (b.erase key).edits ++ [⟨key, value, revision⟩], issued := revision }

/-- A copy of the buffer as it is now. -/
def snapshot (b : EditBuffer) : Batch := ⟨b.items, b.edits.map (·.revision)⟩

/-- Drops keys one after the other, up to the first that has no edit. -/
def eraseEach (b : EditBuffer) : List String → EditBuffer × Option MissingKey
  | [] => (b, none)
  | key :: keys =>
    if b.contains key then (b.erase key).eraseEach keys else (b, some ⟨key⟩)

/-- Drops the edits of the given keys, or all. Keys without an edit are passed over; a key that is
given twice is an error when its turn comes again. -/
def discard (b : EditBuffer) (keys? : Option (List String)) :
    EditBuffer × Except MissingKey (List String) :=
  let targets := match keys? with
    | none => b.keys
    | some keys => keys.filter b.contains
  match b.eraseEach targets with
  | (b, none) => (b, .ok targets)
  | (b, some missing) => (b, .error missing)

/-- Drops every entry that is still the edit of its key, and lists the keys that were dropped. -/
def dropFlushed (b : EditBuffer) :
    List (String × String) → List Int → EditBuffer × List String
  | (key, _) :: entries, revision :: revisions =>
    if (b.find? key).any (·.revision = revision) then
      let (b, dropped) := (b.erase key).dropFlushed entries revisions
      (b, key :: dropped)
    else b.dropFlushed entries revisions
  | _, _ => (b, [])

/-- Drops the edits that a batch has saved; a key that was edited again keeps its newer edit. -/
def discardFlushed (b : EditBuffer) (batch : Batch) :
    EditBuffer × Except LengthMismatch (List String) :=
  let (b, dropped) := b.dropFlushed batch.entries batch.revisions
  if batch.revisions.length < batch.entries.length then (b, .error .tooFewRevisions)
  else if batch.entries.length < batch.revisions.length then (b, .error .tooManyRevisions)
  else (b, .ok dropped)

/-! ### Laws -/

@[simp] theorem find?_set_self (b : EditBuffer) (key value : String) :
    (b.set key value).find? key = some ⟨key, value, b.issued + 1⟩ := by
  have : (b.edits.filter (·.key ≠ key)).find? (·.key = key) = none := by
    simp [List.find?_eq_none]
  simp only [find?, set, erase, List.find?_append, this]
  simp

theorem find?_erase_self (b : EditBuffer) (key : String) : (b.erase key).find? key = none := by
  simp [find?, erase, List.find?_eq_none]

theorem find?_erase_of_ne {key other : String} (h : other ≠ key) (b : EditBuffer) :
    (b.erase key).find? other = b.find? other := by
  simp only [find?, erase, List.find?_filter]
  congr 1
  funext e
  by_cases he : e.key = other <;> simp [he, h]

theorem find?_set_of_ne {key other : String} (h : other ≠ key) (b : EditBuffer) (value : String) :
    (b.set key value).find? other = b.find? other := by
  rw [← find?_erase_of_ne h b]
  have : ¬ key = other := fun h' => h h'.symm
  simp [find?, set, List.find?_append, this]

end EditBuffer

end DeferredSave
