import PersistenceQuery.Query.Strength

/-!
# Operators

The operators, functions and choices that take no operands of their own.  Each type lists its
members in `all`; `name` is the name by which a member is exchanged, and `ofName?` finds it again.

## Main definitions

* `ArithmeticOp`, `ComparisonOp`, `LogicalOp` — the operators, with their symbols.
* `AggregateFunction`, `UnaryFunction`, `Moment`, `ListFunction` — the functions, by the operands
  they take.
* `SortOrder`, `NullOrder`, `JoinKind` — the choices of clauses.
-/

namespace PersistenceQuery

/-! ### Operators between expressions -/

/-- The operators of arithmetic. -/
inductive ArithmeticOp
  | add
  | sub
  | mul
  | div
  deriving DecidableEq, Repr

namespace ArithmeticOp

def all : List ArithmeticOp := [add, sub, mul, div]

def name : ArithmeticOp → String
  | add => "add"
  | sub => "sub"
  | mul => "mul"
  | div => "div"

def symbol : ArithmeticOp → String
  | add => "+"
  | sub => "-"
  | mul => "*"
  | div => "/"

/-- Sums and differences bind more weakly than products and quotients. -/
def strength : ArithmeticOp → Strength
  | add | sub => .additive
  | mul | div => .multiplicative

/-- `a ∘ (b ∘ c)` is `(a ∘ b) ∘ c`. -/
def isAssociative : ArithmeticOp → Bool
  | add | mul => true
  | sub | div => false

def ofName? (s : String) : Option ArithmeticOp := all.find? (·.name == s)

theorem ofName?_name (op : ArithmeticOp) : ofName? op.name = some op := by cases op <;> decide

end ArithmeticOp

/-- The comparison operators. -/
inductive ComparisonOp
  | eq
  | ne
  | gt
  | gte
  | lt
  | lte
  deriving DecidableEq, Repr

namespace ComparisonOp

def all : List ComparisonOp := [eq, ne, gt, gte, lt, lte]

def name : ComparisonOp → String
  | eq => "eq"
  | ne => "ne"
  | gt => "gt"
  | gte => "gte"
  | lt => "lt"
  | lte => "lte"

def symbol : ComparisonOp → String
  | eq => "="
  | ne => "<>"
  | gt => ">"
  | gte => ">="
  | lt => "<"
  | lte => "<="

def ofName? (s : String) : Option ComparisonOp := all.find? (·.name == s)

theorem ofName?_name (op : ComparisonOp) : ofName? op.name = some op := by cases op <;> decide

end ComparisonOp

/-- Conjunction and disjunction; conjunction where nothing is said. -/
inductive LogicalOp
  | and
  | or
  deriving DecidableEq, Repr, Inhabited

namespace LogicalOp

def all : List LogicalOp := [and, or]

def name : LogicalOp → String
  | and => "and"
  | or => "or"

def symbol : LogicalOp → String
  | and => "AND"
  | or => "OR"

def strength : LogicalOp → Strength
  | and => .and
  | or => .or

/-- What the operator gives without operands, as a comparison of constants. -/
def identity : LogicalOp → String
  | and => "1 = 1"
  | or => "0 = 1"

def ofName? (s : String) : Option LogicalOp := all.find? (·.name == s)

theorem ofName?_name (op : LogicalOp) : ofName? op.name = some op := by cases op <;> decide

end LogicalOp

/-! ### Functions -/

/-- The functions over the rows of a group. -/
inductive AggregateFunction
  | count
  | sum
  | avg
  | min
  | max
  deriving DecidableEq, Repr

namespace AggregateFunction

def all : List AggregateFunction := [count, sum, avg, min, max]

def name : AggregateFunction → String
  | count => "count"
  | sum => "sum"
  | avg => "avg"
  | min => "min"
  | max => "max"

def keyword : AggregateFunction → String
  | count => "COUNT"
  | sum => "SUM"
  | avg => "AVG"
  | min => "MIN"
  | max => "MAX"

def ofName? (s : String) : Option AggregateFunction := all.find? (·.name == s)

theorem ofName?_name (f : AggregateFunction) : ofName? f.name = some f := by cases f <;> decide

end AggregateFunction

/-- The built-in functions of one argument. -/
inductive UnaryFunction
  | lower
  | upper
  | length
  | abs
  | sqrt
  | size
  deriving DecidableEq, Repr

namespace UnaryFunction

def all : List UnaryFunction := [lower, upper, length, abs, sqrt, size]

def name : UnaryFunction → String
  | lower => "lower"
  | upper => "upper"
  | length => "length"
  | abs => "abs"
  | sqrt => "sqrt"
  | size => "size"

def ofName? (s : String) : Option UnaryFunction := all.find? (·.name == s)

theorem ofName?_name (f : UnaryFunction) : ofName? f.name = some f := by cases f <;> decide

end UnaryFunction

/-- What the clock of the database is asked for. -/
inductive Moment
  | date
  | time
  | timestamp
  deriving DecidableEq, Repr

namespace Moment

def all : List Moment := [date, time, timestamp]

def name : Moment → String
  | date => "current_date"
  | time => "current_time"
  | timestamp => "current_timestamp"

def ofName? (s : String) : Option Moment := all.find? (·.name == s)

theorem ofName?_name (m : Moment) : ofName? m.name = some m := by cases m <;> decide

end Moment

/-- The built-in functions of any number of arguments. -/
inductive ListFunction
  | concat
  | coalesce
  deriving DecidableEq, Repr

namespace ListFunction

def all : List ListFunction := [concat, coalesce]

def name : ListFunction → String
  | concat => "concat"
  | coalesce => "coalesce"

def ofName? (s : String) : Option ListFunction := all.find? (·.name == s)

theorem ofName?_name (f : ListFunction) : ofName? f.name = some f := by cases f <;> decide

end ListFunction

/-! ### Choices of clauses -/

/-- The direction of a sort; ascending where nothing is said. -/
inductive SortOrder
  | asc
  | desc
  deriving DecidableEq, Repr, Inhabited

namespace SortOrder

def all : List SortOrder := [asc, desc]

def name : SortOrder → String
  | asc => "asc"
  | desc => "desc"

def keyword : SortOrder → String
  | asc => "ASC"
  | desc => "DESC"

def ofName? (s : String) : Option SortOrder := all.find? (·.name == s)

theorem ofName?_name (o : SortOrder) : ofName? o.name = some o := by cases o <;> decide

end SortOrder

/-- Where a sort puts the nulls. -/
inductive NullOrder
  | first
  | last
  deriving DecidableEq, Repr

namespace NullOrder

def all : List NullOrder := [first, last]

def name : NullOrder → String
  | first => "first"
  | last => "last"

def keyword : NullOrder → String
  | first => "NULLS FIRST"
  | last => "NULLS LAST"

def ofName? (s : String) : Option NullOrder := all.find? (·.name == s)

theorem ofName?_name (o : NullOrder) : ofName? o.name = some o := by cases o <;> decide

end NullOrder

/-- Whether a join keeps rows without a partner; it does not where nothing is said. -/
inductive JoinKind
  | inner
  | left
  deriving DecidableEq, Repr, Inhabited

namespace JoinKind

def all : List JoinKind := [inner, left]

def name : JoinKind → String
  | inner => "inner"
  | left => "left"

def keyword : JoinKind → String
  | inner => "INNER JOIN"
  | left => "LEFT JOIN"

def ofName? (s : String) : Option JoinKind := all.find? (·.name == s)

theorem ofName?_name (k : JoinKind) : ofName? k.name = some k := by cases k <;> decide

end JoinKind

end PersistenceQuery
