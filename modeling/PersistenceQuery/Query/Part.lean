import PersistenceQuery.Query.Expr

/-!
# Parts and their kinds

Everything in a query that is written by a rule of its own is a part of it.  A part has a *form*:
one of the constructs of the language, or a call of a function under some name.  The kind of a
part is the name of its form; calls and constructs can have the same kind and still differ in
form.

## Main definitions

* `Part` — a query, a clause item or an expression.
* `Construct`, `Form` — what parts are told apart by; `Part.form`, `Part.kind`.
* `callKeywords` — the kinds of the built-in calls with their keywords.
-/

namespace PersistenceQuery

/-- The constructs of the language, but for the calls that differ in name only. -/
inductive Construct
  | selectQuery
  | updateQuery
  | deleteQuery
  | entity
  | join
  | sort
  | assignment
  | literal
  | parameter
  | path
  | entityReference
  | aliased
  | arithmetic
  | negate
  | choice
  | subquery
  | comparison
  | logical (op : LogicalOp)
  | not
  | like
  | between
  | inList
  | inSubquery
  | isNull
  | isEmpty
  | memberOf
  | exists
  | aggregate (function : AggregateFunction)
  | function
  deriving DecidableEq, Repr

/-- The name under which the rule for a construct is kept. -/
def Construct.kind : Construct → String
  | selectQuery => "select_query"
  | updateQuery => "update_query"
  | deleteQuery => "delete_query"
  | entity => "entity"
  | join => "join"
  | sort => "sort"
  | assignment => "assignment"
  | literal => "literal"
  | parameter => "param"
  | path => "path"
  | entityReference => "entity_reference"
  | aliased => "alias"
  | arithmetic => "arithmetic"
  | negate => "negate"
  | choice => "case"
  | subquery => "subquery"
  | comparison => "comparison"
  | logical op => op.name
  | not => "not"
  | like => "like"
  | between => "between"
  | inList => "in"
  | inSubquery => "in_subquery"
  | isNull => "is_null"
  | isEmpty => "is_empty"
  | memberOf => "member_of"
  | .exists => "exists"
  | aggregate f => f.name
  | function => "function"

/-- What a rule has to fit: a construct, or a call under a kind. -/
inductive Form
  | construct (c : Construct)
  | call (kind : String)
  deriving DecidableEq, Repr

/-- The kind of a form. -/
def Form.kind : Form → String
  | construct c => c.kind
  | call kind => kind

/-- The kind of the built-in call that compares two values. -/
def nullIfKind : String := "nullif"

/-- The kind of the built-in call that cuts a text. -/
def substringKind : String := "substring"

/-- The kinds of the built-in calls, each with its keyword. -/
def callKeywords : List (String × String) :=
  [("lower", "LOWER"), ("upper", "UPPER"), ("length", "LENGTH"), ("abs", "ABS"),
   ("sqrt", "SQRT"), ("size", "SIZE"), ("current_date", "CURRENT_DATE"),
   ("current_time", "CURRENT_TIME"), ("current_timestamp", "CURRENT_TIMESTAMP"),
   ("concat", "CONCAT"), ("substring", "SUBSTRING"), ("coalesce", "COALESCE"),
   ("nullif", "NULLIF")]

/-- The form of an expression. -/
def Expr.form : Expr → Form
  | .literal _ => .construct .literal
  | .parameter _ _ => .construct .parameter
  | .path _ => .construct .path
  | .entity _ => .construct .entityReference
  | .aliased _ _ => .construct .aliased
  | .arithmetic _ _ _ => .construct .arithmetic
  | .negate _ => .construct .negate
  | .choice _ _ _ => .construct .choice
  | .subquery _ => .construct .subquery
  | .comparison _ _ _ => .construct .comparison
  | .logical op _ => .construct (.logical op)
  | .not _ => .construct .not
  | .like _ _ _ _ => .construct .like
  | .between _ _ _ _ => .construct .between
  | .inList _ _ _ => .construct .inList
  | .inSubquery _ _ _ => .construct .inSubquery
  | .isNull _ _ => .construct .isNull
  | .isEmpty _ _ => .construct .isEmpty
  | .memberOf _ _ _ => .construct .memberOf
  | .exists _ _ => .construct .exists
  | .unary f _ => .call f.name
  | .current m => .call m.name
  | .variadic f _ => .call f.name
  | .substring _ _ _ => .call substringKind
  | .nullIf _ _ => .call nullIfKind
  | .aggregate f _ _ => .construct (.aggregate f)
  | .function _ _ => .construct .function
  | .custom kind _ => .call kind

/-- The kind of an expression; a custom node has its own. -/
def Expr.kind (e : Expr) : String := e.form.kind

/-- A part of a query. -/
inductive Part
  | select (query : Select)
  | update (query : Update)
  | delete (query : Delete)
  | entity (entity : Entity)
  | join (join : Join)
  | sort (key : SortKey)
  | assignment (assignment : Assignment)
  | expr (expr : Expr)

/-- The form of a part. -/
def Part.form : Part → Form
  | select _ => .construct .selectQuery
  | update _ => .construct .updateQuery
  | delete _ => .construct .deleteQuery
  | entity _ => .construct .entity
  | join _ => .construct .join
  | sort _ => .construct .sort
  | assignment _ => .construct .assignment
  | expr e => e.form

/-- The kind of a part. -/
def Part.kind (p : Part) : String := p.form.kind

/-- A query as the part it is as a whole. -/
def Query.part : Query → Part
  | select q => .select q
  | update q => .update q
  | delete q => .delete q

end PersistenceQuery
