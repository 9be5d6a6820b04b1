import PersistenceQuery.Query.Shape
import PersistenceQuery.Rendering.Draft
import PersistenceQuery.Rendering.Writing

/-!
# Rendering queries

A query becomes text in three stages: its shape is checked, every named parameter must have a
value, and then it is written.

## Main definitions

* `Rendered` — the text of a query and the bindings of its parameters.
* `Query.checkBindings` — every named parameter has a value.
* `Binder.rendered` — emissions written on an empty draft.
* `Query.render` — the three stages.
* `Part.render` — a single part written on its own.
-/

namespace PersistenceQuery

/-- A query as text, and the values of the parameters in it. -/
structure Rendered where
  text : String
  bindings : Bindings

/-- A named parameter brings a value or is supplied with one. -/
def isBound (supplied : Option Bindings) (parameter : String × Option Value) : Bool :=
  parameter.2.isSome || (supplied.map (·.contains parameter.1)).getD false

/-- The first named parameter without a value is a fault. -/
def Query.checkBindings (q : Query) (supplied : Option Bindings) : Except Fault Unit :=
  match q.parameters.find? (!isBound supplied ·) with
  | some (name, _) => .error (.missingBinding name)
  | none => .ok ()

/-- The binder for a query: all names of its parameters are reserved, wherever they stand. -/
def Query.binder (q : Query) (supplied : Option Bindings) (mode : Mode) : Binder :=
  (q.parameters.map Prod.fst).foldl Binder.reserve (Binder.start mode supplied)

/-- Writes emissions on an empty draft and finishes the text. -/
def Binder.rendered (binder : Binder) (es : List Emission) : Except Fault Rendered :=
  match (Draft.start binder).emitAll es with
  | (_, some fault) => .error fault
  | (draft, none) =>
    match draft.finish with
    | .ok (text, bindings) => .ok ⟨text, bindings⟩
    | .error fault => .error fault

/-- The text of a query in a dialect, with values for its named parameters. -/
def Query.render (D : Dialect) (q : Query) (supplied : Option Bindings) (mode : Mode) :
    Except Fault Rendered :=
  match q.checkShape with
  | .error cause => .error (.invalidShape cause)
  | .ok () =>
    match q.checkBindings supplied with
    | .error fault => .error fault
    | .ok () => (q.binder supplied mode).rendered (D.write q.part)

/-- The text of a single part, written as it is. -/
def Part.render (D : Dialect) (p : Part) (binder : Binder) : Except Fault Rendered :=
  binder.rendered (D.write p)

/-! ### What a result comes from -/

theorem Binder.rendered_eq_ok {b : Binder} {es : List Emission} {r : Rendered} :
    b.rendered es = .ok r
      ↔ ∃ d, (Draft.start b).emitAll es = (d, none) ∧ d.finish = .ok (r.text, r.bindings) := by
  unfold Binder.rendered
  rcases (Draft.start b).emitAll es with ⟨d, _ | fault⟩
  · simp only [Prod.mk.injEq, and_true, exists_eq_left']
    rcases d.finish with fault | ⟨text, bindings⟩
    · simp
    · cases r
      simp
  · simp

/-- A query that is rendered keeps the rules, and all its parameters have values. -/
theorem Query.render_eq_ok {D : Dialect} {q : Query} {supplied : Option Bindings} {mode : Mode}
    {r : Rendered} :
    q.render D supplied mode = .ok r
      ↔ q.checkShape = .ok () ∧ q.checkBindings supplied = .ok ()
        ∧ (q.binder supplied mode).rendered (D.write q.part) = .ok r := by
  unfold Query.render
  rcases q.checkShape with cause | _
  · simp
  · rcases q.checkBindings supplied with fault | _ <;> simp

end PersistenceQuery
