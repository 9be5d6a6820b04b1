import Mathlib.Order.Filter.AtTopBot.Basic
import PersistenceQuery.Proofs.Reading.Grammar

/-!
# Reading by descent

A text has at most one reading.  The rules of the grammar do not say so by themselves; they are
compared with a reader that goes through the lexemes once, from left to right, and decides by the
next lexeme alone.  It refuses nothing that is out of place, since it is only asked about lexemes
that the rules have read; it has to come to the same expression.

## Main definitions

* `Task`, `descend` — what the reader has to read next, and the reader with a bound on its depth.
* `Parses` — the answer of the reader, if it may go deep enough.
* `Follow` — what stands behind an expression does not go on with it.

## Main results

* `Reads.completes` — the reader comes to whatever the rules read.
* `Reading.unique` — a text has one reading at most.
-/

namespace PersistenceQuery

/-! ### The reader -/

/-- The operator of arithmetic that the lexeme stands for. -/
def Lexeme.arithmetic? : Lexeme → Option ArithmeticOp
  | .sign s => ArithmeticOp.all.find? (·.symbol == s)
  | _ => none

/-- The comparison that the lexeme stands for. -/
def Lexeme.comparison? : Lexeme → Option ComparisonOp
  | .sign s => ComparisonOp.all.find? (·.symbol == s)
  | _ => none

/-- What is to be read next. -/
inductive Task
  /-- An expression that binds at least as tightly. -/
  | level (s : Strength)
  /-- What follows the left operand of sums or products. -/
  | chain (s : Strength) (left : Expr)
  /-- What follows the first operand of a predicate. -/
  | test (value : Expr)
  /-- The same behind a `NOT`, or where there is none. -/
  | range (value : Expr) (negated : Bool)
  /-- Expressions with a separator between them. -/
  | list (item : Strength) (separator : Lexeme)

/-- What has been read, and the lexemes behind it. -/
abbrev Outcome := Option (List Expr × List Lexeme)

/-- Several operands are a conjunction or disjunction; one is itself. -/
def gathered (op : LogicalOp) : Outcome → Outcome
  | some ([e], rest) => some ([e], rest)
  | some (es, rest) => some ([.logical op es], rest)
  | none => none

/-- One expression, made into another. -/
def wrapped (f : Expr → Expr) : Outcome → Outcome
  | some ([e], rest) => some ([f e], rest)
  | _ => none

/-- The pattern has been read; its escape character may follow. -/
def escaped (value pattern : Expr) (negated : Bool) : List Lexeme → Outcome
  | .word w :: .quoted s :: rest =>
    if w = "ESCAPE" then some ([.like value pattern s.toList.head? negated], rest)
    else some ([.like value pattern none negated], .word w :: .quoted s :: rest)
  | rest => some ([.like value pattern none negated], rest)

/-- One task, given a reader for those that it leads to. -/
def perform (G : Grammar) (recur : Task → List Lexeme → Outcome) : Task → List Lexeme → Outcome
  | .level .aliased, ts => recur (.level .or) ts
  | .level .or, ts => gathered .or (recur (.list .and (.word "OR")) ts)
  | .level .and, ts => gathered .and (recur (.list .not (.word "AND")) ts)
  | .level .not, ts =>
    if ts.head? = some (.word "NOT") then wrapped .not (recur (.level .not) ts.tail)
    else recur (.level .predicate) ts
  | .level .predicate, ts =>
    if ts.head? = some (.word "1") then some ([.logical .and []], ts.drop 3)
    else if ts.head? = some (.word "0") then some ([.logical .or []], ts.drop 3)
    else match recur (.level .additive) ts with
      | some ([v], rest) => recur (.test v) rest
      | _ => none
  | .level .additive, ts => match recur (.level .multiplicative) ts with
    | some ([e], rest) => recur (.chain .additive e) rest
    | _ => none
  | .level .multiplicative, ts => match recur (.level .unary) ts with
    | some ([e], rest) => recur (.chain .multiplicative e) rest
    | _ => none
  | .level .unary, ts =>
    if ts.head? = some (.sign "-") then wrapped .negate (recur (.level .atom) ts.tail)
    else recur (.level .atom) ts
  | .level .atom, .word w :: rest => some ([.path (Path.ofText w)], rest)
  | .level .atom, .parameter s :: rest => some ([.parameter s none], rest)
  | .level .atom, ts => match recur (.level G.outer) ts.tail with
    | some (es, rest) => some (es, rest.tail)
    | none => none
  | .chain s left, ts => match ts.head?.bind Lexeme.arithmetic? with
    | some op =>
      if op.strength = s then match recur (.level s.next) ts.tail with
        | some ([r], rest) => recur (.chain s (.arithmetic op left r)) rest
        | _ => none
      else some ([left], ts)
    | none => some ([left], ts)
  | .test v, ts => match ts.head?.bind Lexeme.comparison? with
    | some op => wrapped (.comparison op v) (recur (.level .additive) ts.tail)
    | none =>
      if ts.head? = some (.word "IS") then
        if ts.tail.head? = some (.word "NOT") then some ([.isNull v true], ts.drop 3)
        else some ([.isNull v false], ts.drop 2)
      else if ts.head? = some (.word "NOT") then recur (.range v true) ts.tail
      else recur (.range v false) ts
  | .range v negated, ts =>
    if ts.head? = some (.word "LIKE") then match recur (.level .additive) ts.tail with
      | some ([p], rest) => escaped v p negated rest
      | _ => none
    else if ts.head? = some (.word "BETWEEN") then match recur (.level .additive) ts.tail with
      | some ([low], rest) =>
        wrapped (.between v low · negated) (recur (.level .additive) rest.tail)
      | _ => none
    else if ts.head? = some (.word "IN") then
      match recur (.list .or (.sign ",")) (ts.drop 2) with
      | some (es, rest) => some ([.inList v es negated], rest.tail)
      | none => none
    else some ([v], ts)
  | .list item separator, ts => match recur (.level item) ts with
    | some ([e], rest) =>
      if rest.head? = some separator then match recur (.list item separator) rest.tail with
        | some (es, rest) => some (e :: es, rest)
        | none => none
      else some ([e], rest)
    | _ => none

-- a task is performed by the equation of its kind
attribute [local simp] perform

/-- The reader, to a bounded depth. -/
def descend (G : Grammar) : Nat → Task → List Lexeme → Outcome
  | 0 => fun _ _ => none
  | n + 1 => perform G (descend G n)

/-- However deep the reader may go from some depth on, this is its answer. -/
def Parses (G : Grammar) (t : Task) (ts : List Lexeme) (res : List Expr × List Lexeme) : Prop :=
  ∀ᶠ n in Filter.atTop, descend G n t ts = some res

variable {G : Grammar}

theorem parses_of_perform {t : Task} {ts : List Lexeme} {res : List Expr × List Lexeme}
    (h : ∀ᶠ n in Filter.atTop, perform G (descend G n) t ts = some res) : Parses G t ts res := by
  obtain ⟨N, hN⟩ := Filter.eventually_atTop.1 h
  refine Filter.eventually_atTop.2 ⟨N + 1, ?_⟩
  intro n hn
  obtain ⟨m, rfl⟩ := Nat.exists_eq_add_of_le' hn
  exact hN (m + N) (by omega)

/-- The reader has one answer. -/
theorem Parses.unique {t : Task} {ts : List Lexeme} {res res' : List Expr × List Lexeme}
    (h : Parses G t ts res) (h' : Parses G t ts res') : res = res' := by
  -- some depth is enough for both
  obtain ⟨n, hn, hn'⟩ := (h.and h').exists
  rw [hn] at hn'
  exact Option.some.inj hn'

/-! ### What may follow -/

/-- How tightly the operator binds that goes on behind an operand with this lexeme. -/
def Lexeme.binding? : Lexeme → Option Strength
  | .sign s =>
    if s = "*" ∨ s = "/" then some .multiplicative
    else if s = "+" ∨ s = "-" then some .additive
    else if ["=", "<>", ">", ">=", "<", "<="].contains s then some .predicate
    else none
  | .word w =>
    if w = "OR" then some .or
    else if w = "AND" then some .and
    else if ["NOT", "LIKE", "ESCAPE", "BETWEEN", "IN", "IS"].contains w then some .predicate
    else none
  | _ => none

/-- What stands behind an expression of some strength belongs to a weaker operator, or to none. -/
def Follow (s : Strength) (rest : List Lexeme) : Prop :=
  ∀ t ∈ rest.head?, ∀ k ∈ t.binding?, k < s

theorem Follow.of_le {s t : Strength} {rest : List Lexeme} (h : Follow s rest) (hle : s ≤ t) :
    Follow t rest := fun u hu k hk => Nat.lt_of_lt_of_le (h u hu k hk) hle

theorem Follow.next {s : Strength} {rest : List Lexeme} (h : Follow s rest) :
    Follow s.next rest := h.of_le s.le_next

theorem follow_nil (s : Strength) : Follow s [] := fun _ hu => absurd hu (by simp)

theorem follow_cons {s k : Strength} {t : Lexeme} {rest : List Lexeme}
    (h : t.binding? = some k) (hk : k < s) : Follow s (t :: rest) := by
  intro u hu j hj
  rw [List.head?_cons, Option.mem_some_iff] at hu
  rw [← hu, h, Option.mem_some_iff] at hj
  exact hj ▸ hk

theorem follow_of_none {s : Strength} {t : Lexeme} {rest : List Lexeme} (h : t.binding? = none) :
    Follow s (t :: rest) := by
  intro u hu j hj
  rw [List.head?_cons, Option.mem_some_iff] at hu
  rw [← hu, h] at hj
  cases hj

/-- A lexeme that goes on at least as tightly does not follow. -/
theorem Follow.head?_ne {s k : Strength} {rest : List Lexeme} (h : Follow s rest) {t : Lexeme}
    (ht : t.binding? = some k) (hk : ¬ k < s) : rest.head? ≠ some t :=
  fun heq => hk (h t heq k ht)

/-! ### Signs of operators -/

theorem arithmetic?_symbol (op : ArithmeticOp) :
    (Lexeme.sign op.symbol).arithmetic? = some op := by cases op <;> decide

theorem comparison?_symbol (op : ComparisonOp) :
    (Lexeme.sign op.symbol).comparison? = some op := by cases op <;> decide

theorem binding?_arithmetic (op : ArithmeticOp) :
    (Lexeme.sign op.symbol).binding? = some op.strength := by cases op <;> decide

theorem binding?_comparison (op : ComparisonOp) :
    (Lexeme.sign op.symbol).binding? = some .predicate := by cases op <;> decide

theorem binding?_logical (op : LogicalOp) :
    (Lexeme.word op.symbol).binding? = some op.strength := by cases op <;> decide

theorem eq_of_arithmetic? {t : Lexeme} {op : ArithmeticOp} (h : t.arithmetic? = some op) :
    t = .sign op.symbol := by
  cases t with
  | sign s =>
    have hs := List.find?_some h
    rw [beq_iff_eq] at hs
    rw [hs]
  | _ => cases h

theorem eq_of_comparison? {t : Lexeme} {op : ComparisonOp} (h : t.comparison? = some op) :
    t = .sign op.symbol := by
  cases t with
  | sign s =>
    have hs := List.find?_some h
    rw [beq_iff_eq] at hs
    rw [hs]
  | _ => cases h

/-! ### One task -/

namespace Parses

variable {ts us rest : List Lexeme} {e v : Expr} {es : List Expr} {s : Strength}
  {res : List Expr × List Lexeme}

/-- Where no operator of the level follows, the chain ends. -/
theorem chain_of_follow (h : Follow s rest) (e : Expr) :
    Parses G (.chain s e) rest ([e], rest) := by
  refine parses_of_perform (.of_forall fun n => ?_)
  rw [perform]
  cases hop : rest.head?.bind Lexeme.arithmetic? with
  | none => rfl
  | some op =>
    obtain ⟨t, ht, hop⟩ := Option.bind_eq_some_iff.1 hop
    have hlt := h t ht op.strength (by rw [eq_of_arithmetic? hop, binding?_arithmetic]; rfl)
    have hne : op.strength ≠ s := fun heq => Nat.lt_irrefl _ (heq ▸ hlt)
    exact if_neg hne

/-- One more operand of the chain. -/
theorem chain {op : ArithmeticOp} {l r : Expr}
    (hr : Parses G (.level op.strength.next) us ([r], rest))
    (hrest : Parses G (.chain op.strength (.arithmetic op l r)) rest res) :
    Parses G (.chain op.strength l) (.sign op.symbol :: us) res := by
  refine parses_of_perform ?_
  filter_upwards [hr, hrest] with n hr hrest
  simp [arithmetic?_symbol, hr, hrest]

theorem additive (h : Parses G (.level .multiplicative) ts ([e], rest))
    (hchain : Parses G (.chain .additive e) rest res) : Parses G (.level .additive) ts res := by
  refine parses_of_perform ?_
  filter_upwards [h, hchain] with n h hchain
  simp [h, hchain]

theorem multiplicative (h : Parses G (.level .unary) ts ([e], rest))
    (hchain : Parses G (.chain .multiplicative e) rest res) :
    Parses G (.level .multiplicative) ts res := by
  refine parses_of_perform ?_
  filter_upwards [h, hchain] with n h hchain
  simp [h, hchain]

theorem negate (h : Parses G (.level .atom) ts ([e], rest)) :
    Parses G (.level .unary) (.sign "-" :: ts) ([.negate e], rest) := by
  refine parses_of_perform ?_
  filter_upwards [h] with n h
  simp [h, wrapped]

theorem unary (hhead : ts.head? ≠ some (.sign "-")) (h : Parses G (.level .atom) ts res) :
    Parses G (.level .unary) ts res := by
  refine parses_of_perform ?_
  filter_upwards [h] with n h
  rw [perform, if_neg hhead, h]

theorem path {p : Path} (h : p.IsReadable G) (rest : List Lexeme) :
    Parses G (.level .atom) (.word p.text :: rest) ([.path p], rest) :=
  parses_of_perform (.of_forall fun n => by rw [perform, Path.ofText_text h])

theorem parameter (s : String) (rest : List Lexeme) :
    Parses G (.level .atom) (.parameter s :: rest) ([.parameter s none], rest) :=
  parses_of_perform (.of_forall fun _ => rfl)

theorem group (h : Parses G (.level G.outer) ts ([e], .sign ")" :: rest)) :
    Parses G (.level .atom) (.sign "(" :: ts) ([e], rest) := by
  refine parses_of_perform ?_
  filter_upwards [h] with n h
  simp [h]

theorem not (h : Parses G (.level .not) ts ([e], rest)) :
    Parses G (.level .not) (.word "NOT" :: ts) ([.not e], rest) := by
  refine parses_of_perform ?_
  filter_upwards [h] with n h
  simp [h, wrapped]

theorem not_of_head (hhead : ts.head? ≠ some (.word "NOT"))
    (h : Parses G (.level .predicate) ts res) : Parses G (.level .not) ts res := by
  refine parses_of_perform ?_
  filter_upwards [h] with n h
  rw [perform, if_neg hhead, h]

theorem aliased (h : Parses G (.level .or) ts res) : Parses G (.level .aliased) ts res :=
  parses_of_perform h

/-- The operands of a conjunction or disjunction. -/
theorem logical {op : LogicalOp} (hes : 2 ≤ es.length)
    (h : Parses G (.list op.strength.next (.word op.symbol)) ts (es, rest)) :
    Parses G (.level op.strength) ts ([.logical op es], rest) := by
  obtain ⟨e, f, fs, rfl⟩ : ∃ e f fs, es = e :: f :: fs := by
    rcases es with _ | ⟨e, _ | ⟨f, fs⟩⟩
    · exact absurd hes (by simp)
    · exact absurd hes (by simp)
    · exact ⟨e, f, fs, rfl⟩
  refine parses_of_perform ?_
  filter_upwards [h] with n h
  cases op with
  | and => exact congrArg (gathered .and) h
  | or => exact congrArg (gathered .or) h

/-- A single operand is the expression itself. -/
theorem logical_singleton (op : LogicalOp)
    (h : Parses G (.list op.strength.next (.word op.symbol)) ts ([e], rest)) :
    Parses G (.level op.strength) ts ([e], rest) := by
  refine parses_of_perform ?_
  filter_upwards [h] with n h
  cases op with
  | and => exact congrArg (gathered .and) h
  | or => exact congrArg (gathered .or) h

theorem list {item : Strength} {separator : Lexeme}
    (h : Parses G (.level item) ts ([e], separator :: us))
    (hes : Parses G (.list item separator) us (es, rest)) :
    Parses G (.list item separator) ts (e :: es, rest) := by
  refine parses_of_perform ?_
  filter_upwards [h, hes] with n h hes
  simp [h, hes]

theorem list_singleton {item : Strength} {separator : Lexeme}
    (h : Parses G (.level item) ts ([e], rest)) (hhead : rest.head? ≠ some separator) :
    Parses G (.list item separator) ts ([e], rest) := by
  refine parses_of_perform ?_
  filter_upwards [h] with n h
  simp [h, hhead]

/-! Predicates -/

theorem predicate (hone : ts.head? ≠ some (.word "1")) (hzero : ts.head? ≠ some (.word "0"))
    (h : Parses G (.level .additive) ts ([v], rest)) (htest : Parses G (.test v) rest res) :
    Parses G (.level .predicate) ts res := by
  refine parses_of_perform ?_
  filter_upwards [h, htest] with n h htest
  simp [hone, hzero, h, htest]

theorem comparison {op : ComparisonOp} {r : Expr}
    (hr : Parses G (.level .additive) us ([r], rest)) :
    Parses G (.test v) (.sign op.symbol :: us) ([.comparison op v r], rest) := by
  refine parses_of_perform ?_
  filter_upwards [hr] with n hr
  simp [comparison?_symbol, hr, wrapped]

theorem isNull (negated : Bool) (rest : List Lexeme) :
    Parses G (.test v) (.word "IS" :: (negation negated ++ .word "NULL" :: rest))
      ([.isNull v negated], rest) := by
  refine parses_of_perform (.of_forall fun n => ?_)
  cases negated <;> simp [Lexeme.comparison?, negation]

/-- What is tested behind an optional `NOT`. -/
theorem test {negated : Bool} {t : Lexeme} (hcmp : t.comparison? = none) (his : t ≠ .word "IS")
    (hnot : t ≠ .word "NOT") (h : Parses G (.range v negated) (t :: us) res) :
    Parses G (.test v) (negation negated ++ t :: us) res := by
  refine parses_of_perform ?_
  filter_upwards [h] with n h
  cases negated with
  | true => simpa [Lexeme.comparison?, negation] using h
  | false => simpa [hcmp, his, hnot, negation] using h

theorem like {p : Expr} {escape : Option Char} {negated : Bool}
    (hp : Parses G (.level .additive) us ([p], escaping escape ++ rest))
    (hfollow : rest.head? ≠ some (.word "ESCAPE")) :
    Parses G (.range v negated) (.word "LIKE" :: us) ([.like v p escape negated], rest) := by
  have hescaped : escaped v p negated (escaping escape ++ rest)
      = some ([.like v p escape negated], rest) := by
    cases escape with
    | some c => simp [escaping, escaped]
    | none =>
      rw [escaping, List.nil_append, escaped.eq_def]
      split
      · next w s us =>
        have hw : w ≠ "ESCAPE" := fun hw => hfollow (by rw [hw]; rfl)
        rw [if_neg hw]
      · rfl
  refine parses_of_perform ?_
  filter_upwards [hp] with n hp
  simp [hp, hescaped]

theorem between {low high : Expr} {vs : List Lexeme} {negated : Bool}
    (hlow : Parses G (.level .additive) us ([low], .word "AND" :: vs))
    (hhigh : Parses G (.level .additive) vs ([high], rest)) :
    Parses G (.range v negated) (.word "BETWEEN" :: us) ([.between v low high negated], rest) := by
  refine parses_of_perform ?_
  filter_upwards [hlow, hhigh] with n hlow hhigh
  simp [hlow, hhigh, wrapped]

theorem inList {negated : Bool}
    (hes : Parses G (.list .or (.sign ",")) us (es, .sign ")" :: rest)) :
    Parses G (.range v negated) (.word "IN" :: .sign "(" :: us) ([.inList v es negated], rest) := by
  refine parses_of_perform ?_
  filter_upwards [hes] with n hes
  simp [hes]

/-- Nothing is tested where no predicate follows. -/
theorem test_of_follow (h : Follow .predicate rest) (v : Expr) :
    Parses G (.test v) rest ([v], rest) := by
  have hword : ∀ w, (Lexeme.word w).binding? = some .predicate → rest.head? ≠ some (.word w) :=
    fun w hw => h.head?_ne hw (by decide)
  have hcmp : rest.head?.bind Lexeme.comparison? = none := by
    refine Option.bind_eq_none_iff.2 fun t ht => ?_
    cases hop : t.comparison? with
    | none => rfl
    | some op =>
      rw [eq_of_comparison? hop] at ht
      exact absurd ht (h.head?_ne (binding?_comparison op) (by decide))
  -- none of the words that a test may begin with follows
  have hrange : Parses G (.range v false) rest ([v], rest) := by
    refine parses_of_perform (.of_forall fun n => ?_)
    rw [perform, if_neg (hword _ (by decide)), if_neg (hword _ (by decide)),
      if_neg (hword _ (by decide))]
  refine parses_of_perform ?_
  filter_upwards [hrange] with n hrange
  simp [hcmp, hword "IS" (by decide), hword "NOT" (by decide), hrange]

end Parses

/-! ### The reader comes to every reading -/

/-- What must not go on behind an expression of the level when its chain is still to come. -/
def Strength.guard : Strength → Strength
  | additive => multiplicative
  | multiplicative => unary
  | s => s

theorem Strength.le_guard (s : Strength) : s ≤ s.guard := by cases s <;> decide

/-- The reader comes to what the rules have read, whatever follows it.  Sums and products grow to
the right: whatever the reader makes of their left part and what follows, it makes of the whole. -/
def Completes (G : Grammar) : Goal → List Lexeme → List Expr → Prop
  | .level s, ts, es => ∀ e, es = [e] → ∀ rest res, Follow s.guard rest →
    Parses G (.chain s e) rest res → Parses G (.level s) (ts ++ rest) res
  | .operands op, ts, es => ∀ rest, Follow op.strength rest →
    Parses G (.list op.strength.next (.word op.symbol)) (ts ++ rest) (es, rest)
  | .members, ts, es => ∀ rest, Parses G (.list .or (.sign ","))
    (ts ++ .sign ")" :: rest) (es, .sign ")" :: rest)

theorem Completes.parses {s : Strength} {ts rest : List Lexeme} {e : Expr}
    (h : Completes G (.level s) ts [e]) (hrest : Follow s rest) :
    Parses G (.level s) (ts ++ rest) ([e], rest) :=
  h e rfl rest _ (hrest.of_le s.le_guard) (.chain_of_follow hrest e)

/-- Away from sums and products the chain adds nothing. -/
theorem completes_of_parses {s : Strength} {ts : List Lexeme} {e : Expr} (hs : s.guard = s)
    (h : ∀ rest, Follow s rest → Parses G (.level s) (ts ++ rest) ([e], rest)) :
    Completes G (.level s) ts [e] := by
  rintro f ⟨⟩ rest res hrest hchain
  rw [hs] at hrest
  rw [hchain.unique (.chain_of_follow hrest e)]
  exact h rest hrest

/-- What is read does not begin with the sign of a weaker operator. -/
theorem Reads.head?_ne {g : Goal} {ts : List Lexeme} {es : List Expr} (h : Reads G g ts es)
    {t : Lexeme} (ht : ¬ g.strength ≤ G.leading t) (rest : List Lexeme) :
    (ts ++ rest).head? ≠ some t := by
  obtain ⟨u, us, rfl, hle⟩ := h.exists_head
  rintro ⟨⟩
  exact ht hle

/-- An expression that binds more tightly is read at its level, and so at the weaker one. -/
theorem completes_climb {s : Strength} {ts : List Lexeme} {e : Expr} (hs : G.outer ≤ s)
    (hreads : Reads G (.level s.next) ts [e]) (h : Completes G (.level s.next) ts [e]) :
    Completes G (.level s) ts [e] := by
  cases s with
  | aliased => exact completes_of_parses rfl fun rest hrest => .aliased (h.parses hrest.next)
  | or =>
    refine completes_of_parses rfl fun rest hrest => .logical_singleton .or ?_
    exact .list_singleton (h.parses hrest.next) (hrest.head?_ne rfl (by decide))
  | and =>
    refine completes_of_parses rfl fun rest hrest => .logical_singleton .and ?_
    exact .list_singleton (h.parses hrest.next) (hrest.head?_ne rfl (by decide))
  | not =>
    obtain rfl := Grammar.eq_full hs (by decide)
    exact completes_of_parses rfl fun rest hrest =>
      .not_of_head (hreads.head?_ne (by decide) rest) (h.parses hrest.next)
  | predicate =>
    obtain rfl := Grammar.eq_full hs (by decide)
    exact completes_of_parses rfl fun rest hrest =>
      .predicate (hreads.head?_ne (by decide) rest) (hreads.head?_ne (by decide) rest)
        (h.parses hrest.next) (.test_of_follow hrest e)
  | additive =>
    rintro f ⟨⟩ rest res hrest hchain
    exact .additive (h.parses hrest) hchain
  | multiplicative =>
    rintro f ⟨⟩ rest res hrest hchain
    exact .multiplicative (h.parses hrest) hchain
  | unary =>
    have hminus : ¬ Strength.atom ≤ G.leading (.sign "-") := by
      rw [Grammar.leading]
      decide
    exact completes_of_parses rfl fun rest hrest =>
      .unary (hreads.head?_ne hminus rest) (h.parses hrest.next)
  | atom => exact h

/-- A predicate is read as its first operand and then its test. -/
theorem completes_predicate {ts us : List Lexeme} {v e : Expr} (hG : G.outer ≤ .predicate)
    (hreads : Reads G (.level .additive) ts [v]) (hv : Completes G (.level .additive) ts [v])
    (hus : ∀ rest, Follow .additive (us ++ rest))
    (htest : ∀ rest, Follow .predicate rest → Parses G (.test v) (us ++ rest) ([e], rest)) :
    Completes G (.level .predicate) (ts ++ us) [e] := by
  obtain rfl := Grammar.eq_full hG (by decide)
  refine completes_of_parses rfl ?_
  intro rest hrest
  rw [List.append_assoc]
  exact .predicate (hreads.head?_ne (by decide) _) (hreads.head?_ne (by decide) _)
    (hv.parses (hus rest)) (htest rest hrest)

theorem follow_negation {negated : Bool} {t : Lexeme} {us : List Lexeme}
    (ht : t.binding? = some .predicate) : Follow .additive (negation negated ++ t :: us) := by
  cases negated with
  | true => exact follow_cons (k := .predicate) rfl (by decide)
  | false => exact follow_cons ht (by decide)

theorem follow_escaping {escape : Option Char} {rest : List Lexeme}
    (hrest : Follow .predicate rest) : Follow .additive (escaping escape ++ rest) := by
  cases escape with
  | some c => exact follow_cons (k := .predicate) rfl (by decide)
  | none => exact hrest.next

/-- The reader comes to whatever the rules read. -/
theorem Reads.completes {g : Goal} {ts : List Lexeme} {es : List Expr} (h : Reads G g ts es)
    (hg : G.outer ≤ g.strength) : Completes G g ts es := by
  -- by induction on the derivation; what may follow the parts is clear from the rule
  induction h with
  | path h => exact completes_of_parses rfl fun rest _ => .path h rest
  | parameter _ => exact completes_of_parses rfl fun rest _ => .parameter _ rest
  | group _ ih =>
    refine completes_of_parses rfl ?_
    intro rest _
    rw [List.cons_append, List.append_assoc]
    exact .group ((ih (Strength.le_refl _)).parses (follow_of_none rfl))
  | @climb s ts e h ih =>
    exact completes_climb hg h (ih (Strength.le_trans hg s.le_next))
  | negate _ ih =>
    have ih := ih (Strength.le_atom _)
    exact completes_of_parses rfl fun rest hrest => .negate (ih.parses hrest.next)
  | @arithmetic op ts us l r _ _ ihl ihr =>
    have ihr := ihr (Strength.le_trans hg op.strength.le_next)
    rintro f ⟨⟩ rest res hrest hchain
    -- the left part is read first, and its chain goes on with this operator
    have hnext : op.strength.guard = op.strength.next := by cases op <;> rfl
    rw [hnext] at hrest
    rw [List.append_assoc]
    refine ihl hg l rfl _ _ ?_ (.chain (ihr.parses hrest) hchain)
    exact follow_cons (binding?_arithmetic op) (by cases op <;> decide)
  | comparison hl _ ihl ihr =>
    have ihr := ihr G.outer_le_additive
    refine completes_predicate hg hl (ihl G.outer_le_additive) ?_ ?_
    · intro rest
      exact follow_cons (binding?_comparison _) (by decide)
    · intro rest hrest
      exact .comparison (ihr.parses hrest.next)
  | truth =>
    exact completes_of_parses rfl fun rest _ => parses_of_perform (.of_forall fun n => by simp)
  | falsity =>
    exact completes_of_parses rfl fun rest _ => parses_of_perform (.of_forall fun n => by simp)
  | like hv _ ihv ihp =>
    have ihp := ihp G.outer_le_additive
    refine completes_predicate hg hv (ihv G.outer_le_additive) ?_ ?_
    · intro rest
      rw [List.append_assoc]
      exact follow_negation rfl
    · intro rest hrest
      rw [List.append_assoc, List.cons_append, List.append_assoc]
      exact .test rfl (by decide) (by decide)
        (.like (ihp.parses (follow_escaping hrest)) (hrest.head?_ne rfl (by decide)))
  | between hv _ _ ihv ihlow ihhigh =>
    have ihlow := ihlow G.outer_le_additive
    have ihhigh := ihhigh G.outer_le_additive
    refine completes_predicate hg hv (ihv G.outer_le_additive) ?_ ?_
    · intro rest
      rw [List.append_assoc]
      exact follow_negation rfl
    · intro rest hrest
      rw [List.append_assoc, List.cons_append, List.append_assoc]
      exact .test rfl (by decide) (by decide)
        (.between (ihlow.parses (follow_cons (k := .and) rfl (by decide)))
          (ihhigh.parses hrest.next))
  | inList hv _ ihv ihes =>
    -- there are no lists in arithmetic
    obtain rfl := Grammar.eq_full hg (by decide)
    have ihes := ihes (by decide)
    refine completes_predicate hg hv (ihv (by decide)) ?_ ?_
    · intro rest
      rw [List.append_assoc]
      exact follow_negation rfl
    · intro rest hrest
      rw [List.append_assoc, List.cons_append, List.cons_append, List.append_assoc]
      exact .test rfl (by decide) (by decide) (.inList (ihes rest))
  | isNull hv ihv =>
    refine completes_predicate hg hv (ihv G.outer_le_additive) ?_ ?_
    · intro rest
      exact follow_cons (k := .predicate) rfl (by decide)
    · intro rest hrest
      rw [List.cons_append, List.append_assoc]
      exact .isNull _ rest
  | not _ ih =>
    exact completes_of_parses rfl fun rest hrest => .not ((ih hg).parses hrest)
  | @logical op ts es _ hes ih =>
    have ih := ih (Strength.le_trans hg op.strength.le_next)
    exact completes_of_parses (by cases op <;> rfl) fun rest hrest => .logical hes (ih rest hrest)
  | @operand op ts e _ ih =>
    intro rest hrest
    exact .list_singleton ((ih hg).parses hrest.next)
      (hrest.head?_ne (binding?_logical op) (by cases op <;> decide))
  | @operands op ts us e es _ _ ih ihes =>
    intro rest hrest
    rw [List.append_assoc]
    refine .list ((ih hg).parses ?_) (ihes hg rest hrest)
    exact follow_cons (binding?_logical op) (by cases op <;> decide)
  | member _ ih =>
    intro rest
    exact .list_singleton ((ih hg).parses (follow_of_none rfl)) (by simp)
  | members _ _ ih ihes =>
    intro rest
    rw [List.append_assoc]
    exact .list ((ih hg).parses (follow_of_none rfl)) (ihes hg rest)

/-- A text has one reading at most. -/
theorem Reading.unique {text : String} {e f : Expr} (he : Reading G text e)
    (hf : Reading G text f) : e = f := by
  have hparse := fun {e : Expr} (h : Reading G text e) =>
    (h.completes (Strength.le_refl _)).parses (follow_nil G.outer)
  have heq := (hparse he).unique (hparse hf)
  simpa using heq

end PersistenceQuery
