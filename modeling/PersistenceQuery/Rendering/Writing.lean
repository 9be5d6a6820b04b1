import PersistenceQuery.Rendering.Dialect

/-!
# Writing parts

The catalogue of layouts: how each part is written, given the dialect that writes the parts inside
it.  A layout never writes an inner part itself; it hands it to the dialect, so a rule can be
exchanged without the others.  Only calls depend on the rule that is taken: its keyword stands in
front of their arguments.

## Main definitions

* `Expr.layout`, `Select.layout`, … — the layouts of the parts.
* `Part.layout` — the layout of any part.
* `Dialect.write`, `Rule.write` — a part written by the rule for its kind, and by a given rule.
-/

namespace PersistenceQuery

open Emission (keyword parenthesized separated operand call)

/-- A word, behind `NOT` if it is negated. -/
def negatable (negated : Bool) (word : String) : String :=
  if negated then "NOT " ++ word else word

/-- A minus sign in front of this literal would make two of them. -/
def Expr.isNegativeLiteral : Expr → Bool
  | .literal (.int n) => n < 0
  | .literal (.float x) => x.negative
  | _ => false

/-- Where the right operand of an arithmetic operator stands: the same operator may follow without
parentheses if it groups either way. -/
def ArithmeticOp.rightSide (op : ArithmeticOp) : Expr → Side
  | .arithmetic inner _ _ => if inner = op ∧ op.isAssociative then .chained else .right
  | _ => .right

/-! ### Entities -/

/-- An entity in a clause, with its label. -/
def Entity.layout (e : Entity) : List Emission := .name e.name :: keyword "AS" ++ [.name e.label]

/-- What is joined: an entity, or a path with a label. -/
def JoinTarget.layout (D : Dialect) : JoinTarget → List Emission
  | .entity e => D.accept (.entity e) fun _ => e.layout
  | .association path label => .name path.text :: keyword "AS" ++ [.name label]

/-! ### Expressions and selecting queries -/

mutual

/-- An expression, written with the keyword of the rule if it is a call. -/
def Expr.layout (D : Dialect) : Expr → String → List Emission
  | .literal v, _ => [.value v]
  | .parameter name embedded, _ => [.parameter name embedded]
  | .path p, _ => [.name p.text]
  | .entity e, _ => [.name e.label]
  | .aliased v label, _ =>
    operand .aliased .left v.strength (D.accept (.expr v) (v.layout D)) ++ keyword "AS"
      ++ [.name label]
  | .arithmetic op l r, _ =>
    operand op.strength .left l.strength (D.accept (.expr l) (l.layout D))
      ++ keyword op.symbol
      ++ operand op.strength (op.rightSide r) r.strength (D.accept (.expr r) (r.layout D))
  | .negate v, _ =>
    .word "-" :: if v.isNegativeLiteral then parenthesized (D.accept (.expr v) (v.layout D))
      else operand .unary .strict v.strength (D.accept (.expr v) (v.layout D))
  | .choice subject arms otherwise, _ =>
    .word "CASE" :: layoutOfOption D subject [.space] ++ layoutOfArms D arms
      ++ layoutOfOption D otherwise (keyword "ELSE") ++ keyword "END"
  | .subquery q, _ => parenthesized (D.accept (.select q) fun _ => q.layout D)
  | .comparison op l r, _ =>
    operand .predicate .strict l.strength (D.accept (.expr l) (l.layout D))
      ++ keyword op.symbol
      ++ operand .predicate .strict r.strength (D.accept (.expr r) (r.layout D))
  | .logical op es, _ => layoutOfOperands D op es
  | .not e, _ =>
    .word "NOT" :: .space :: operand .not .left e.strength (D.accept (.expr e) (e.layout D))
  | .like v p escape negated, _ =>
    operand .predicate .strict v.strength (D.accept (.expr v) (v.layout D))
      ++ keyword (negatable negated "LIKE")
      ++ operand .predicate .strict p.strength (D.accept (.expr p) (p.layout D))
      ++ match escape with
        | none => []
        | some c => keyword "ESCAPE" ++ [.quoted (String.singleton c)]
  | .between v low high negated, _ =>
    operand .predicate .strict v.strength (D.accept (.expr v) (v.layout D))
      ++ keyword (negatable negated "BETWEEN")
      ++ operand .predicate .strict low.strength (D.accept (.expr low) (low.layout D))
      ++ keyword "AND"
      ++ operand .predicate .strict high.strength (D.accept (.expr high) (high.layout D))
  | .inList v es negated, _ =>
    if es.isEmpty then [.stop (.invalidShape .emptyMembers)]
    else
      operand .predicate .strict v.strength (D.accept (.expr v) (v.layout D))
        ++ keyword (negatable negated "IN")
        ++ parenthesized (separated ", " (layoutsOfList D es))
  | .inSubquery v q negated, _ =>
    operand .predicate .strict v.strength (D.accept (.expr v) (v.layout D))
      ++ keyword (negatable negated "IN")
      ++ parenthesized (D.accept (.select q) fun _ => q.layout D)
  | .isNull v negated, _ =>
    operand .predicate .strict v.strength (D.accept (.expr v) (v.layout D))
      ++ keyword (if negated then "IS NOT NULL" else "IS NULL")
  | .isEmpty p negated, _ =>
    .name p.text :: keyword (if negated then "IS NOT EMPTY" else "IS EMPTY")
  | .memberOf v p negated, _ =>
    operand .predicate .strict v.strength (D.accept (.expr v) (v.layout D))
      ++ keyword (negatable negated "MEMBER OF") ++ [.name p.text]
  | .exists q negated, _ =>
    .word (negatable negated "EXISTS") :: .space
      :: parenthesized (D.accept (.select q) fun _ => q.layout D)
  | .unary _ v, word => call word [D.accept (.expr v) (v.layout D)]
  | .current _, word => call word []
  | .variadic _ es, word => call word (layoutsOfList D es)
  | .substring v start length, word =>
    call word (D.accept (.expr v) (v.layout D) :: D.accept (.expr start) (start.layout D)
      :: layoutsOfOption D length)
  | .nullIf l r, word =>
    call word [D.accept (.expr l) (l.layout D), D.accept (.expr r) (r.layout D)]
  | .aggregate f distinct v, _ =>
    .word f.keyword :: parenthesized ((if distinct then [.word "DISTINCT", .space] else [])
      ++ D.accept (.expr v) (v.layout D))
  | .function name es, _ => call "FUNCTION" ([.quoted name] :: layoutsOfList D es)
  | .custom _ es, word => call word (layoutsOfList D es)

/-- An optional expression behind what leads to it. -/
def layoutOfOption (D : Dialect) : Option Expr → List Emission → List Emission
  | none, _ => []
  | some e, lead => lead ++ D.accept (.expr e) (e.layout D)

/-- An optional expression as a list of at most one. -/
def layoutsOfOption (D : Dialect) : Option Expr → List (List Emission)
  | none => []
  | some e => [D.accept (.expr e) (e.layout D)]

/-- Expressions one by one. -/
def layoutsOfList (D : Dialect) : List Expr → List (List Emission)
  | [] => []
  | e :: es => D.accept (.expr e) (e.layout D) :: layoutsOfList D es

/-- The operands of a conjunction or disjunction: none give its identity, and a single one is
written on its own. -/
def layoutOfOperands (D : Dialect) (op : LogicalOp) : List Expr → List Emission
  | [] => [.word op.identity]
  | e :: es =>
    if es.isEmpty then D.accept (.expr e) (e.layout D)
    else separated (" " ++ op.symbol ++ " ")
      (operand op.strength .chained e.strength (D.accept (.expr e) (e.layout D))
        :: layoutsOfOperands D op es)

/-- Operands between others of the same operator. -/
def layoutsOfOperands (D : Dialect) (op : LogicalOp) : List Expr → List (List Emission)
  | [] => []
  | e :: es =>
    operand op.strength .chained e.strength (D.accept (.expr e) (e.layout D))
      :: layoutsOfOperands D op es

/-- The arms of a choice. -/
def layoutOfArms (D : Dialect) : List Arm → List Emission
  | [] => []
  | ⟨condition, result⟩ :: arms =>
    keyword "WHEN" ++ D.accept (.expr condition) (condition.layout D) ++ keyword "THEN"
      ++ D.accept (.expr result) (result.layout D) ++ layoutOfArms D arms

/-- A selecting query, clause by clause. -/
def Select.layout (D : Dialect) : Select → List Emission
  | ⟨_, distinct, items, sources, filter, groupBy, having, orderBy⟩ =>
    .word "SELECT" :: .space :: (if distinct then [.word "DISTINCT", .space] else [])
      ++ separated ", " (layoutsOfList D items)
      ++ keyword "FROM" ++ separated ", " (layoutsOfSources D sources)
      ++ layoutOfOption D filter (keyword "WHERE")
      ++ (if groupBy.isEmpty then []
        else keyword "GROUP BY" ++ separated ", " (layoutsOfList D groupBy))
      ++ layoutOfOption D having (keyword "HAVING")
      ++ (if orderBy.isEmpty then []
        else keyword "ORDER BY" ++ separated ", " (layoutsOfKeys D orderBy))

/-- The items of a `FROM` clause, each with its joins behind it. -/
def layoutsOfSources (D : Dialect) : List Source → List (List Emission)
  | [] => []
  | ⟨entity, joins⟩ :: sources =>
    ((D.accept (.entity entity) fun _ => entity.layout) ++ layoutOfJoins D joins)
      :: layoutsOfSources D sources

/-- Joins, each behind a space. -/
def layoutOfJoins (D : Dialect) : List Join → List Emission
  | [] => []
  | join :: joins =>
    .space :: (D.accept (.join join) fun _ => join.layout D) ++ layoutOfJoins D joins

/-- A join with its condition. -/
def Join.layout (D : Dialect) : Join → List Emission
  | ⟨kind, fetch, target, condition⟩ =>
    .word kind.keyword :: .space :: (if fetch then [.word "FETCH", .space] else [])
      ++ target.layout D ++ layoutOfOption D condition (keyword "ON")

/-- The keys of an `ORDER BY` clause. -/
def layoutsOfKeys (D : Dialect) : List SortKey → List (List Emission)
  | [] => []
  | key :: keys => (D.accept (.sort key) fun _ => key.layout D) :: layoutsOfKeys D keys

/-- A key of an `ORDER BY` clause, always with its direction. -/
def SortKey.layout (D : Dialect) : SortKey → List Emission
  | ⟨key, order, nulls⟩ =>
    D.accept (.expr key) (key.layout D) ++ [.space, .word order.keyword]
      ++ match nulls with
        | none => []
        | some n => [.space, .word n.keyword]

end

/-! ### The other parts -/

/-- A path and the value it is set to. -/
def Assignment.layout (D : Dialect) (a : Assignment) : List Emission :=
  .name a.path.text :: keyword "=" ++ D.accept (.expr a.value) (a.value.layout D)

/-- A query that changes attributes. -/
def Update.layout (D : Dialect) (q : Update) : List Emission :=
  .word "UPDATE" :: .space :: (D.accept (.entity q.entity) fun _ => q.entity.layout)
    ++ keyword "SET"
    ++ separated ", " (q.assignments.map fun a => D.accept (.assignment a) fun _ => a.layout D)
    ++ layoutOfOption D q.filter (keyword "WHERE")

/-- A query that removes entities. -/
def Delete.layout (D : Dialect) (q : Delete) : List Emission :=
  .word "DELETE FROM" :: .space :: (D.accept (.entity q.entity) fun _ => q.entity.layout)
    ++ layoutOfOption D q.filter (keyword "WHERE")

/-- A part, written with the keyword of the rule if it is a call. -/
def Part.layout (D : Dialect) : Part → String → List Emission
  | .select q, _ => q.layout D
  | .update q, _ => q.layout D
  | .delete q, _ => q.layout D
  | .entity e, _ => e.layout
  | .join j, _ => j.layout D
  | .sort k, _ => k.layout D
  | .assignment a, _ => a.layout D
  | .expr e, word => e.layout D word

/-- A part, written by the rule that the dialect keeps for its kind. -/
def Dialect.write (D : Dialect) (p : Part) : List Emission := D.accept p (p.layout D)

/-- A part, written by a given rule; the dialect writes the parts inside it. -/
def Rule.write (r : Rule) (D : Dialect) (p : Part) : List Emission := r.accept p (p.layout D)

/-! What a layout hands to the dialect is a part written by it. -/

@[simp] theorem Dialect.accept_expr (D : Dialect) (e : Expr) :
    D.accept (.expr e) (e.layout D) = D.write (.expr e) := rfl

@[simp] theorem Dialect.accept_select (D : Dialect) (q : Select) :
    (D.accept (.select q) fun _ => q.layout D) = D.write (.select q) := rfl

@[simp] theorem Dialect.accept_entity (D : Dialect) (e : Entity) :
    (D.accept (.entity e) fun _ => e.layout) = D.write (.entity e) := rfl

@[simp] theorem Dialect.accept_assignment (D : Dialect) (a : Assignment) :
    (D.accept (.assignment a) fun _ => a.layout D) = D.write (.assignment a) := rfl

@[simp] theorem Dialect.accept_join (D : Dialect) (j : Join) :
    (D.accept (.join j) fun _ => j.layout D) = D.write (.join j) := rfl

@[simp] theorem Dialect.accept_sort (D : Dialect) (k : SortKey) :
    (D.accept (.sort k) fun _ => k.layout D) = D.write (.sort k) := rfl

/-- An expression as an operand. -/
def Dialect.writeOperand (D : Dialect) (parent : Strength) (side : Side) (e : Expr) :
    List Emission :=
  operand parent side e.strength (D.write (.expr e))

/-- Expressions with commas between them. -/
def Dialect.writeArguments (D : Dialect) (es : List Expr) : List Emission :=
  separated ", " (es.map fun e => D.write (.expr e))

end PersistenceQuery
