import PersistenceQuery.Binding.Binder
import PersistenceQuery.Rendering.Emission
import PersistenceQuery.Text.Blank

/-!
# Drafts

The text of a query while it is written, token by token.  One policy decides about spaces: a space
is asked for between two tokens, and it is written with the second one unless the text so far ends
in a space or an opening parenthesis, or the token closes, separates or starts with a space.

## Main definitions

* `Draft` — the text so far, the open parentheses, a space that was asked for, and the binder.
* `Draft.write`, `Draft.space` — a token, and a space asked for.
* `Draft.emit`, `Draft.emitAll` — one emission, and emissions until one of them fails; the draft
  is left as far as it came.
* `Draft.finish` — the finished text with its bindings.
-/

namespace PersistenceQuery

open Text

/-- A text under construction. -/
structure Draft where
  text : String
  /-- How many parentheses were opened and not closed. -/
  unclosed : Nat
  /-- A space was asked for before the next token. -/
  spacePending : Bool
  binder : Binder

namespace Draft

/-- The empty text. -/
def start (binder : Binder) : Draft := ⟨"", 0, false, binder⟩

/-- A text after which no space is asked for: none at all, or one that ends in a space or an
opening parenthesis. -/
def refusesSpace (text : String) : Bool :=
  match text.back? with
  | none => true
  | some c => c == ' ' || c == '('

/-- A token that takes no space in front: it is empty, closes, separates or brings its own. -/
def standsClose (token : String) : Bool :=
  match token.front? with
  | none => true
  | some c => c == ')' || c == ',' || c == ' '

/-- Adds a token, behind a space if one is pending and the token takes it. -/
def write (d : Draft) (token : String) : Draft :=
  { d with
    text := if d.spacePending && !standsClose token
      then d.text ++ " " ++ token else d.text ++ token
    spacePending := false }

/-- Asks for a space before the next token. -/
def space (d : Draft) : Draft :=
  if refusesSpace d.text then d else { d with spacePending := true }

/-- Adds the token that a binder answers with, or stops with its fault.  The binder is the one
behind the call, whatever the answer is. -/
def bound (d : Draft) : Except Fault String × Binder → Draft × Option Fault
  | (.ok token, binder) => (({ d with binder := binder }).write token, none)
  | (.error fault, binder) => ({ d with binder := binder }, some fault)

/-- One emission: the draft it leaves, and the fault that stopped it, if one did. -/
def emit (d : Draft) : Emission → Draft × Option Fault
  | .word text | .name text => (d.write text, none)
  | .quoted text => (d.write (quote text), none)
  | .space => (d.space, none)
  | .opening => ({ d.write "(" with unclosed := d.unclosed + 1 }, none)
  | .closing => (({ d with unclosed := d.unclosed - 1 }).write ")", none)
  | .value v => d.bound (d.binder.register v)
  | .parameter name embedded => d.bound (d.binder.bind name embedded)
  | .stop fault => (d, some fault)

/-- Emissions one after the other; those behind one that fails are left out. -/
def emitAll (d : Draft) : List Emission → Draft × Option Fault
  | [] => (d, none)
  | e :: es => match d.emit e with
    | (d', none) => d'.emitAll es
    | (d', some fault) => (d', some fault)

/-- The finished text without blanks at its ends, and the parameters bound in it. -/
def finish (d : Draft) : Except Fault (String × Bindings) :=
  if d.unclosed ≠ 0 then .error (.incomplete (.unclosed d.unclosed))
  else
    match trim d.text.toList with
    | [] => .error (.incomplete .blank)
    | cs => .ok (String.ofList cs, d.binder.bound)

@[simp] theorem emitAll_nil (d : Draft) : d.emitAll [] = (d, none) := rfl

/-- Emissions that do not fail go on from the draft that the first of them leaves. -/
theorem emitAll_cons_eq_none {d d' : Draft} {e : Emission} {es : List Emission} :
    d.emitAll (e :: es) = (d', none)
      ↔ ∃ d₁, d.emit e = (d₁, none) ∧ d₁.emitAll es = (d', none) := by
  rw [emitAll]
  rcases d.emit e with ⟨d₁, _ | fault⟩ <;> simp

/-- Two lists of emissions one after the other. -/
theorem emitAll_append_eq_none {d d' : Draft} {as bs : List Emission} :
    d.emitAll (as ++ bs) = (d', none)
      ↔ ∃ d₁, d.emitAll as = (d₁, none) ∧ d₁.emitAll bs = (d', none) := by
  induction as generalizing d with
  | nil => simp
  | cons a as ih =>
    simp only [List.cons_append, emitAll_cons_eq_none, ih]
    constructor
    · rintro ⟨d₁, ha, d₂, has, hbs⟩
      exact ⟨d₂, ⟨d₁, ha, has⟩, hbs⟩
    · rintro ⟨d₂, ⟨d₁, ha, has⟩, hbs⟩
      exact ⟨d₁, ha, d₂, has, hbs⟩

theorem finish_eq_ok {d : Draft} {text : String} {bindings : Bindings} :
    d.finish = .ok (text, bindings)
      ↔ d.unclosed = 0 ∧ trim d.text.toList ≠ [] ∧ text = String.ofList (trim d.text.toList)
        ∧ bindings = d.binder.bound := by
  unfold finish
  by_cases h : d.unclosed = 0
  · simp only [h, ne_eq, not_true, if_false, true_and]
    split
    · next hempty => simp [hempty]
    · next cs hcs =>
      simp only [Except.ok.injEq, Prod.mk.injEq]
      constructor
      · rintro ⟨rfl, rfl⟩
        exact ⟨hcs, rfl, rfl⟩
      · rintro ⟨-, rfl, rfl⟩
        exact ⟨rfl, rfl⟩
  · simp [h]

end Draft
end PersistenceQuery
