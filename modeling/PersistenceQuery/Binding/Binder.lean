import PersistenceQuery.Binding.Bindings
import PersistenceQuery.Binding.Literal

/-!
# Binding parameters

While a query is written, a `Binder` gives every literal its token and collects the values of the
parameters.  In the mode `inline` a literal is written as it is; in the mode `placeholder` it
becomes a parameter `param1`, `param2`, …, with a name that nothing else uses.

## Main definitions

* `Mode` — what becomes of literals.
* `Binder`, `Binder.start` — the state, and where it begins.
* `Binder.register` — the token of a literal.
* `Binder.bind` — the token of a named parameter, whose value is looked up among the supplied ones
  first and taken from the parameter itself otherwise.  Either call answers with the state that it
  leaves, also where it fails.
* `Request`, `Binder.handle`, `Binder.run` — the calls as data, and a sequence of them.
-/

namespace PersistenceQuery

/-- How literals reach the query. -/
inductive Mode
  /-- They are written into the text. -/
  | inline
  /-- They are bound to parameters with generated names. -/
  | placeholder
  deriving DecidableEq, Repr

namespace Mode

/-- Where nothing is said, literals are bound. -/
instance : Inhabited Mode := ⟨placeholder⟩

def all : List Mode := [inline, placeholder]

def name : Mode → String
  | inline => "inline"
  | placeholder => "placeholder"

def ofName? (s : String) : Option Mode := all.find? (·.name == s)

theorem ofName?_name (m : Mode) : ofName? m.name = some m := by cases m <;> decide

end Mode

/-- The generated name with this ordinal. -/
def placeholderName (ordinal : Nat) : String := "param" ++ toString ordinal

/-- The placeholder of a parameter. -/
def placeholder (name : String) : String := ":" ++ name

/-- The first number from `start` on that is not taken, or `start + tries` if so many are. -/
def firstFree (taken : Nat → Bool) : Nat → Nat → Nat
  | 0, start => start
  | tries + 1, start => if taken start then firstFree taken tries (start + 1) else start

/-- The state of binding while a query is written. -/
structure Binder where
  mode : Mode
  /-- Values that the caller supplies for named parameters. -/
  supplied : Option Bindings
  /-- Names that must not be generated. -/
  reserved : List String
  /-- The least ordinal that the next generated name may have. -/
  next : Nat
  /-- The parameters of the text so far. -/
  bound : Bindings

namespace Binder

/-- Nothing is bound; the names of the supplied values are reserved. -/
def start (mode : Mode) (supplied : Option Bindings) : Binder where
  mode := mode
  supplied := supplied
  reserved := (supplied.map Bindings.names).getD []
  next := 1
  bound := ∅

/-- Keeps a name from being generated. -/
def reserve (b : Binder) (name : String) : Binder := { b with reserved := name :: b.reserved }

/-- The name is reserved or bound. -/
def isTaken (b : Binder) (name : String) : Bool :=
  b.reserved.contains name || b.bound.contains name

/-- The ordinal of the next generated name: the first whose name is not taken.  There are not more
taken names than reserved and bound ones, so no more have to be tried. -/
def freeOrdinal (b : Binder) : Nat :=
  firstFree (fun n => b.isTaken (placeholderName n)) (b.reserved.length + b.bound.size) b.next

/-- A literal: its token, or why it has none, and the state after the call. -/
def register (b : Binder) (value : Value) : Except Fault String × Binder :=
  match b.mode with
  | .inline =>
    match value.literal with
    | .ok text => (.ok text, b)
    | .error cause => (.error (.unsupportedValue cause), b)
  | .placeholder =>
    let ordinal := b.freeOrdinal
    let name := placeholderName ordinal
    (.ok (placeholder name), { b with next := ordinal + 1, bound := b.bound.set name value })

/-- The value of a named parameter: the supplied one, or else the one it brings. -/
def valueFor (b : Binder) (name : String) (embedded : Option Value) : Option Value :=
  (b.supplied.bind (·.get? name)).or embedded

/-- A named parameter: its token, or that it has no value, and the state after the call.  A
parameter that is bound already stays as it is. -/
def bind (b : Binder) (name : String) (embedded : Option Value) : Except Fault String × Binder :=
  match b.valueFor name embedded with
  | none => (.error (.missingBinding name), b)
  | some value =>
    (.ok (placeholder name),
      if b.bound.contains name then b else { b with bound := b.bound.set name value })

end Binder

/-! ### Sequences of calls -/

/-- A call to a binder. -/
inductive Request
  | register (value : Value)
  | bind (name : String) (embedded : Option Value)
  | reserve (name : String)
  deriving DecidableEq

namespace Binder

/-- One call: its answer, with a token if the call has one, and the state that it leaves. -/
def handle (b : Binder) : Request → Except Fault (Option String) × Binder
  | .register value =>
    let (answer, b') := b.register value
    (answer.map some, b')
  | .bind name embedded =>
    let (answer, b') := b.bind name embedded
    (answer.map some, b')
  | .reserve name => (.ok none, b.reserve name)

/-- A sequence of calls: the answer to each with the state after it. -/
def run (b : Binder) : List Request → List (Except Fault (Option String) × Binder)
  | [] => []
  | r :: rs =>
    let answer := b.handle r
    answer :: run answer.2 rs

/-- The state after a sequence of calls. -/
def after (b : Binder) (requests : List Request) : Binder :=
  requests.foldl (fun b r => (b.handle r).2) b

end Binder
end PersistenceQuery
