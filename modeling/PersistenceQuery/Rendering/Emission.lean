import PersistenceQuery.Fault
import PersistenceQuery.Query.Strength

/-!
# Emissions

What it takes to write a part, as data.  An emission is one token, or something that decides about
the tokens around it; where each token comes from is kept, since words of the language, names of
the query and quoted texts may hold different characters.

## Main definitions

* `Emission` — a token, a space asked for, a parenthesis, a value or parameter, or a fault.
* `Emission.keyword`, `Emission.parenthesized`, `Emission.separated` — emissions put together.
* `Emission.operand`, `Emission.call` — an operand in its place, and a call of a function.
-/

namespace PersistenceQuery

/-- One thing that is written. -/
inductive Emission
  /-- A word or a sign of the language. -/
  | word (text : String)
  /-- A name that the query brings. -/
  | name (text : String)
  /-- A text between quotes. -/
  | quoted (text : String)
  /-- A space asked for before the next token. -/
  | space
  | opening
  | closing
  /-- The token of a literal. -/
  | value (v : Value)
  /-- The token of a named parameter, which may bring its own value. -/
  | parameter (name : String) (embedded : Option Value)
  /-- Nothing more can be written. -/
  | stop (fault : Fault)
  deriving DecidableEq

namespace Emission

/-- A word with a space asked for on both sides. -/
def keyword (text : String) : List Emission := [.space, .word text, .space]

/-- Emissions between parentheses. -/
def parenthesized (inner : List Emission) : List Emission := .opening :: (inner ++ [.closing])

/-- Lists of emissions with a word before each but the first. -/
def separated (separator : String) : List (List Emission) → List Emission
  | [] => []
  | first :: others => first ++ others.flatMap (.word separator :: ·)

/-- An operand, between parentheses where its strength asks for them. -/
def operand (parent : Strength) (side : Side) (child : Strength) (inner : List Emission) :
    List Emission :=
  if needsParentheses parent child side then parenthesized inner else inner

/-- A call: its keyword and its arguments. -/
def call (keyword : String) (arguments : List (List Emission)) : List Emission :=
  .word keyword :: parenthesized (separated ", " arguments)

@[simp] theorem separated_nil (separator : String) : separated separator [] = [] := rfl

theorem separated_cons (separator : String) (first : List Emission)
    (others : List (List Emission)) :
    separated separator (first :: others) = first ++ others.flatMap (.word separator :: ·) := rfl

end Emission
end PersistenceQuery
