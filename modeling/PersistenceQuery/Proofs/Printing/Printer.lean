import PersistenceQuery.Binding.Binder
import PersistenceQuery.Rendering.Writing

/-!
# A printer without state

The text of a query by recursion on the query alone.  There is no text so far to look back at and no
space that is still to be written: every form has a template, in which the texts of the parts inside
it stand as they are.

## Main definitions

* `inParentheses`, `operandText`, `behind`, `surrounded`, `preceded`, `commas`, `called` — what the
  templates are made of.
* `Expr.printed`, `Select.printed`, `Query.printed` — the templates.
-/

namespace PersistenceQuery

/-! ### Pieces of text -/

/-- A text between parentheses. -/
def inParentheses (text : String) : String := "(" ++ text ++ ")"

/-- An operand, between parentheses where its strength asks for them. -/
def operandText (parent : Strength) (side : Side) (child : Strength) (text : String) : String :=
  if needsParentheses parent child side then inParentheses text else text

/-- A text behind a space. -/
def behind (text : String) : String := " " ++ text

/-- A keyword between two spaces. -/
def surrounded (word : String) : String := " " ++ word ++ " "

/-- A text behind a word that may be left out. -/
def preceded (present : Bool) (word text : String) : String :=
  if present then word ++ behind text else text

/-- Texts with commas between them. -/
def commas (texts : List String) : String := ", ".intercalate texts

/-- A keyword and arguments between parentheses. -/
def called (word : String) (arguments : List String) : String :=
  word ++ inParentheses (commas arguments)

/-- The keyword of a built-in call, by its kind. -/
def callKeyword (kind : String) : String := (callKeywords.lookup kind).getD ""

/-! ### Parts without expressions inside them -/

/-- A value as its literal; one that has none is left out. -/
def Value.printed (v : Value) : String :=
  match v.literal with
  | .ok text => text
  | .error _ => ""

/-- `Book AS b`. -/
def Entity.printed (e : Entity) : String := e.name ++ surrounded "AS" ++ e.label

/-- What is joined: an entity, or a path with a label. -/
def JoinTarget.printed : JoinTarget → String
  | .entity e => e.printed
  | .association path label => path.text ++ surrounded "AS" ++ label

/-! ### Expressions and selecting queries -/

mutual

/-- An expression by the template of its form. -/
def Expr.printed : Expr → String
  | .literal v => v.printed
  | .parameter name _ => placeholder name
  | .path p => p.text
  | .entity e => e.label
  | .aliased v label =>
    operandText .aliased .left v.strength v.printed ++ surrounded "AS" ++ label
  | .arithmetic op l r =>
    operandText op.strength .left l.strength l.printed ++ surrounded op.symbol
      ++ operandText op.strength (op.rightSide r) r.strength r.printed
  | .negate v =>
    "-" ++ if v.isNegativeLiteral then inParentheses v.printed
      else operandText .unary .strict v.strength v.printed
  | .choice operand arms otherwise =>
    "CASE" ++ printedOption " " operand ++ printedArms arms
      ++ printedOption (surrounded "ELSE") otherwise ++ behind "END"
  | .subquery q => inParentheses q.printed
  | .comparison op l r =>
    operandText .predicate .strict l.strength l.printed ++ surrounded op.symbol
      ++ operandText .predicate .strict r.strength r.printed
  | .logical op es => printedOperands op es
  | .not e => "NOT" ++ behind (operandText .not .left e.strength e.printed)
  | .like v p escape negated =>
    operandText .predicate .strict v.strength v.printed
      ++ surrounded (negatable negated "LIKE")
      ++ operandText .predicate .strict p.strength p.printed
      ++ match escape with
        | none => ""
        | some c => surrounded "ESCAPE" ++ Text.quote (String.singleton c)
  | .between v low high negated =>
    operandText .predicate .strict v.strength v.printed
      ++ surrounded (negatable negated "BETWEEN")
      ++ operandText .predicate .strict low.strength low.printed ++ surrounded "AND"
      ++ operandText .predicate .strict high.strength high.printed
  | .inList v es negated =>
    operandText .predicate .strict v.strength v.printed
      ++ surrounded (negatable negated "IN") ++ inParentheses (commas (printedList es))
  | .inSubquery v q negated =>
    operandText .predicate .strict v.strength v.printed
      ++ surrounded (negatable negated "IN") ++ inParentheses q.printed
  | .isNull v negated =>
    operandText .predicate .strict v.strength v.printed
      ++ behind (if negated then "IS NOT NULL" else "IS NULL")
  | .isEmpty p negated => p.text ++ behind (if negated then "IS NOT EMPTY" else "IS EMPTY")
  | .memberOf v p negated =>
    operandText .predicate .strict v.strength v.printed
      ++ surrounded (negatable negated "MEMBER OF") ++ p.text
  | .exists q negated => negatable negated "EXISTS" ++ behind (inParentheses q.printed)
  | .unary f v => called (callKeyword f.name) [v.printed]
  | .current m => called (callKeyword m.name) []
  | .variadic f es => called (callKeyword f.name) (printedList es)
  | .substring v start length =>
    called (callKeyword substringKind) (v.printed :: start.printed :: printedLast length)
  | .nullIf l r => called (callKeyword nullIfKind) [l.printed, r.printed]
  | .aggregate f distinct v =>
    f.keyword ++ inParentheses (preceded distinct "DISTINCT" v.printed)
  | .function name es => called "FUNCTION" (Text.quote name :: printedList es)
  | .custom kind es => called (callKeyword kind) (printedList es)

/-- An optional expression behind what leads to it. -/
def printedOption : String → Option Expr → String
  | _, none => ""
  | lead, some e => lead ++ e.printed

/-- An optional last argument. -/
def printedLast : Option Expr → List String
  | none => []
  | some e => [e.printed]

/-- Expressions one by one. -/
def printedList : List Expr → List String
  | [] => []
  | e :: es => e.printed :: printedList es

/-- The operands of a conjunction or disjunction with its word between them: none give its
identity, and a single one stands on its own. -/
def printedOperands (op : LogicalOp) : List Expr → String
  | [] => op.identity
  | e :: es =>
    if es.isEmpty then e.printed
    else (surrounded op.symbol).intercalate
      (operandText op.strength .chained e.strength e.printed :: printedChain op es)

/-- Operands between others of the same operator. -/
def printedChain (op : LogicalOp) : List Expr → List String
  | [] => []
  | e :: es => operandText op.strength .chained e.strength e.printed :: printedChain op es

/-- The arms of a choice. -/
def printedArms : List Arm → String
  | [] => ""
  | ⟨condition, result⟩ :: arms =>
    surrounded "WHEN" ++ condition.printed ++ surrounded "THEN" ++ result.printed
      ++ printedArms arms

/-- A selecting query, its clauses in their order; those without content are left out. -/
def Select.printed : Select → String
  | ⟨_, distinct, items, sources, filter, groupBy, having, orderBy⟩ =>
    "SELECT" ++ behind (preceded distinct "DISTINCT" (commas (printedList items)))
      ++ surrounded "FROM" ++ commas (printedSources sources)
      ++ printedOption (surrounded "WHERE") filter
      ++ (if groupBy.isEmpty then ""
        else surrounded "GROUP BY" ++ commas (printedList groupBy))
      ++ printedOption (surrounded "HAVING") having
      ++ (if orderBy.isEmpty then ""
        else surrounded "ORDER BY" ++ commas (printedKeys orderBy))

/-- The items of a `FROM` clause, each with its joins behind it. -/
def printedSources : List Source → List String
  | [] => []
  | ⟨entity, joins⟩ :: sources => (entity.printed ++ printedJoins joins) :: printedSources sources

/-- Joins, each behind a space. -/
def printedJoins : List Join → String
  | [] => ""
  | join :: joins => behind join.printed ++ printedJoins joins

/-- A join with its condition. -/
def Join.printed : Join → String
  | ⟨kind, fetch, target, condition⟩ =>
    kind.keyword ++ behind (preceded fetch "FETCH" target.printed)
      ++ printedOption (surrounded "ON") condition

/-- The keys of an `ORDER BY` clause. -/
def printedKeys : List SortKey → List String
  | [] => []
  | key :: keys => key.printed :: printedKeys keys

/-- A key of an `ORDER BY` clause, always with its direction. -/
def SortKey.printed : SortKey → String
  | ⟨key, order, nulls⟩ =>
    key.printed ++ behind order.keyword
      ++ match nulls with
        | none => ""
        | some n => behind n.keyword

end

/-! ### Queries -/

/-- A path and the value it is set to. -/
def Assignment.printed (a : Assignment) : String :=
  a.path.text ++ surrounded "=" ++ a.value.printed

/-- A query that changes attributes. -/
def Update.printed (q : Update) : String :=
  "UPDATE" ++ behind q.entity.printed ++ surrounded "SET"
    ++ commas (q.assignments.map Assignment.printed)
    ++ printedOption (surrounded "WHERE") q.filter

/-- A query that removes entities. -/
def Delete.printed (q : Delete) : String :=
  "DELETE FROM" ++ behind q.entity.printed ++ printedOption (surrounded "WHERE") q.filter

/-- A query of any kind. -/
def Query.printed : Query → String
  | .select q => q.printed
  | .update q => q.printed
  | .delete q => q.printed

end PersistenceQuery
