import PersistenceQuery.Toml.DateTime

/-!
# TOML documents

What the lines of a TOML text define, kept by full path.  A table may be written in several ways,
and how it was written decides where it may be added to later.  Of the values only texts,
date-times and empty lists are kept.

## Main definitions

* `Toml.Item`, `Toml.Document` — what stands at a path, and all that is defined.
* `Toml.Document.header?` — a table begun by its header.
* `Toml.Document.assign?` — an item at a key, in the table that is open.
* `Toml.Document.children` — what a table holds.
-/

namespace PersistenceQuery
namespace Toml

/-- How a table came to be. -/
inductive Origin
  /-- Its own header was written. -/
  | header
  /-- The header of a table inside it was written. -/
  | implied
  /-- A key with points leads through it. -/
  | dotted
  /-- It was written between braces. -/
  | braces
  deriving DecidableEq

/-- What stands at a path. -/
inductive Item
  | text (s : String)
  | dateTime (d : DateTime)
  | emptyList
  | table (origin : Origin)
  deriving DecidableEq

/-- What is defined, by full path. -/
structure Document where
  entries : List (List String × Item)

namespace Document

/-- Nothing is defined. -/
def empty : Document := ⟨[]⟩

/-- What stands at a path. -/
def item? (d : Document) (path : List String) : Option Item := d.entries.lookup path

/-- Puts an item at a path, in place of what stood there. -/
def put (d : Document) (path : List String) (item : Item) : Document :=
  ⟨d.entries.filter (·.1 != path) ++ [(path, item)]⟩

/-- Enters the tables on the way from `base` to the last key of a path.  Those that do not exist
are made, and those that exist must be of an origin that may be entered. -/
def enter? (mayEnter : Origin → Bool) (made : Origin) :
    Document → List String → List String → Option Document
  | d, base, key :: next :: keys =>
    let path := base ++ [key]
    match d.item? path with
    | none => enter? mayEnter made (d.put path (.table made)) path (next :: keys)
    | some (.table origin) =>
      if mayEnter origin then enter? mayEnter made d path (next :: keys) else none
    | some _ => none
  | d, _, _ => some d

/-- Begins the table of a header.  Its header may stand only once, and no table between braces can
be entered. -/
def header? (d : Document) (path : List String) : Option Document := do
  let d ← d.enter? (· != .braces) .implied [] path
  match d.item? path with
  | none | some (.table .implied) => some (d.put path (.table .header))
  | some _ => none

/-- A key of one part lies in the open table, and one with points in a table that such keys
made. -/
def isOwnedByKeys (d : Document) (base keys : List String) : Bool :=
  keys.length ≤ 1 || d.item? (base ++ keys.dropLast) == some (.table .dotted)

/-- Puts an item at a key in the table at `base`.  A key may stand only once, and the tables on the
way to it have no headers of their own. -/
def assign? (d : Document) (base keys : List String) (item : Item) : Option Document := do
  let d ← d.enter? (fun o => o == .dotted || o == .implied) .dotted base keys
  if d.isOwnedByKeys base keys && (d.item? (base ++ keys)).isNone then
    some (d.put (base ++ keys) item)
  else none

/-- The keys of a table and what stands at them, in the order in which they came. -/
def children (d : Document) (path : List String) : List (String × Item) :=
  d.entries.filterMap fun (p, item) =>
    match p.reverse with
    | [] => none
    | key :: above => if above.reverse = path then some (key, item) else none

end Document
end Toml
end PersistenceQuery
