import DeferredSave.Setting
import DeferredSave.Text.Quoted

/-! The catalog: the settings as the store confirmed them last.

A catalog is never changed; a fetch replaces it, and the rows that a save returns make a new one.
A key is looked up in category order, and its first row counts. -/

namespace DeferredSave

structure Catalog where
  categories : Categories
deriving DecidableEq, Repr

namespace Catalog

def empty : Catalog := ⟨[]⟩

/-- All rows, category by category. -/
def rows (c : Catalog) : List Setting := c.categories.flatMap (·.2)

/-- The row of a key. -/
def find? (c : Catalog) (key : String) : Option Setting := c.rows.find? (·.key = key)

/-- The confirmed value of a key. -/
def value? (c : Catalog) (key : String) : Option String := (c.find? key).map (·.value)

/-- The keys of a category; an unknown category has none. -/
def keysOf (c : Catalog) (category : String) : List String :=
  ((c.categories.lookup category).getD []).map (·.key)

/-- The number of different keys. -/
def keyCount (c : Catalog) : Nat := (c.rows.map (·.key)).eraseDups.length

/-- The last update of a key. -/
def lastOf? (updated : List Setting) (key : String) : Option Setting :=
  updated.reverse.find? (·.key = key)

/-- The catalog with every row replaced by the last update of its key. Updates of other keys do not
count. -/
def withUpdates (c : Catalog) (updated : List Setting) : Catalog :=
  ⟨c.categories.map fun (name, rows) => (name, rows.map fun s => (lastOf? updated s.key).getD s)⟩

/-- A one-line description: the category names and the number of keys. -/
def summary (c : Catalog) : String :=
  "<SettingsCatalog(categories=" ++ Text.quoteList (Entries.keys c.categories) ++ ", settings="
    ++ Number.natText c.keyCount ++ ")>"

end Catalog

end DeferredSave
