import PersistenceQuery.Query.Operator
import PersistenceQuery.Query.Path
import PersistenceQuery.Query.Value

/-!
# Queries and expressions

The model of a query.  Expressions and predicates share one type, since a predicate may stand
wherever an expression may; queries occur inside expressions as subqueries.

## Main definitions

* `Expr`, `Select` — expressions, and the selecting queries they may contain.
* `Update`, `Delete`, `Query` — the queries that change data, and a query of any kind.
* `Expr.strength` — how tightly an expression binds as an operand.
-/

namespace PersistenceQuery

/-- An entity that a clause declares: its name and the label, or alias, it goes by. -/
structure Entity where
  name : String
  label : String
  deriving DecidableEq

/-- What a join brings in. -/
inductive JoinTarget
  /-- An entity that no mapping relates; the join says how. -/
  | entity (entity : Entity)
  /-- A mapped association, reached by a path. -/
  | association (path : Path) (label : String)
  deriving DecidableEq

mutual

/-- An expression or a predicate. -/
inductive Expr
  | literal (value : Value)
  /-- A named parameter, which may bring its own value. -/
  | parameter (name : String) (embedded : Option Value)
  | path (path : Path)
  /-- An entity in the place of a value; it stands for its label. -/
  | entity (entity : Entity)
  /-- A selected value under a name. -/
  | aliased (value : Expr) (label : String)
  | arithmetic (op : ArithmeticOp) (left right : Expr)
  | negate (value : Expr)
  /-- A choice between arms, by their conditions or by comparison with an operand. -/
  | choice (operand : Option Expr) (arms : List Arm) (otherwise : Option Expr)
  | subquery (query : Select)
  | comparison (op : ComparisonOp) (left right : Expr)
  | logical (op : LogicalOp) (operands : List Expr)
  | not (operand : Expr)
  | like (value pattern : Expr) (escape : Option Char) (negated : Bool)
  | between (value low high : Expr) (negated : Bool)
  | inList (value : Expr) (members : List Expr) (negated : Bool)
  | inSubquery (value : Expr) (query : Select) (negated : Bool)
  | isNull (value : Expr) (negated : Bool)
  | isEmpty (path : Path) (negated : Bool)
  | memberOf (value : Expr) (collection : Path) (negated : Bool)
  | exists (query : Select) (negated : Bool)
  | unary (function : UnaryFunction) (argument : Expr)
  | current (moment : Moment)
  | variadic (function : ListFunction) (arguments : List Expr)
  | substring (value start : Expr) (length : Option Expr)
  | nullIf (left right : Expr)
  | aggregate (function : AggregateFunction) (distinct : Bool) (value : Expr)
  /-- A function of the database, called by its name. -/
  | function (name : String) (arguments : List Expr)
  /-- A node of a kind of its own. -/
  | custom (kind : String) (arguments : List Expr)

/-- One arm of a choice. -/
structure Arm where
  condition : Expr
  result : Expr

/-- A query that selects. -/
structure Select where
  /-- The type that callers expect of a result row. -/
  resultType : String
  distinct : Bool
  items : List Expr
  sources : List Source
  filter : Option Expr
  groupBy : List Expr
  having : Option Expr
  orderBy : List SortKey

/-- One item of the `FROM` clause: an entity and its joins. -/
structure Source where
  entity : Entity
  joins : List Join

/-- A join to the entity in front of it. -/
structure Join where
  kind : JoinKind
  fetch : Bool
  target : JoinTarget
  condition : Option Expr

/-- One key of the `ORDER BY` clause. -/
structure SortKey where
  key : Expr
  order : SortOrder
  nulls : Option NullOrder

end

/-- A path that is set to a value. -/
structure Assignment where
  path : Path
  value : Expr

/-- A query that changes attributes. -/
structure Update where
  entity : Entity
  assignments : List Assignment
  filter : Option Expr

/-- A query that removes entities. -/
structure Delete where
  entity : Entity
  filter : Option Expr

/-- A query. -/
inductive Query
  | select (query : Select)
  | update (query : Update)
  | delete (query : Delete)

namespace Query

/-- The statement that the query is. -/
def statement : Query → String
  | select _ => "select"
  | update _ => "update"
  | delete _ => "delete"

/-- The type of the result rows; only a query that selects has one. -/
def resultType? : Query → Option String
  | select q => some q.resultType
  | update _ | delete _ => none

end Query

/-! ### Strength of an expression -/

mutual

/-- How tightly an expression binds where it is an operand.  A conjunction or disjunction of one
operand binds like that operand, since nothing else of it is written; one without operands is
written as a comparison. -/
def Expr.strength : Expr → Strength
  | .aliased _ _ => .aliased
  | .logical op operands => op.strengthOver operands
  | .not _ => .not
  | .comparison _ _ _ | .like _ _ _ _ | .between _ _ _ _ | .inList _ _ _ | .inSubquery _ _ _
  | .isNull _ _ | .isEmpty _ _ | .memberOf _ _ _ => .predicate
  | .exists _ negated => if negated then .not else .atom
  | .arithmetic op _ _ => op.strength
  | .negate _ => .unary
  | .literal _ | .parameter _ _ | .path _ | .entity _ | .choice _ _ _ | .subquery _
  | .unary _ _ | .current _ | .variadic _ _ | .substring _ _ _ | .nullIf _ _
  | .aggregate _ _ _ | .function _ _ | .custom _ _ => .atom

/-- The strength of a conjunction or disjunction by its operands. -/
def LogicalOp.strengthOver (op : LogicalOp) : List Expr → Strength
  | [] => .predicate
  | operand :: others => if others.isEmpty then operand.strength else op.strength

end

@[simp] theorem LogicalOp.strengthOver_nil (op : LogicalOp) :
    op.strengthOver [] = .predicate := rfl

@[simp] theorem LogicalOp.strengthOver_singleton (op : LogicalOp) (e : Expr) :
    op.strengthOver [e] = e.strength := rfl

@[simp] theorem LogicalOp.strengthOver_cons_cons (op : LogicalOp) (e f : Expr) (es : List Expr) :
    op.strengthOver (e :: f :: es) = op.strength := rfl

end PersistenceQuery
