import PersistenceQuery.Proofs.Reading.Grammar
import PersistenceQuery.Proofs.Rendering.Settled
import PersistenceQuery.Proofs.Rendering.Standard

/-!
# Expressions that can be read back

The expressions that the grammar knows, and the lexemes of their texts: what is written of an
expression is what is written of its operands, in parentheses where they need them, with the words
and signs of the operator between them.

## Main definitions

* `Readable` — the expressions.
* `Expr.tokens`, `Expr.operandTokens` — the lexemes of an expression, and of an operand.

## Main results

* `Readable.exists_rendered` — a readable expression whose parameters have values is written, and
  its text has these lexemes.
-/

namespace PersistenceQuery

/-- Paths and parameters with readable names, put together by the operators of the grammar. -/
inductive Readable (G : Grammar) : Expr → Prop
  | path {p : Path} (h : p.IsReadable G) : Readable G (.path p)
  | parameter {s : String} (v : Option Value) (h : isParameterName s = true) :
    Readable G (.parameter s v)
  | arithmetic (op : ArithmeticOp) {l r : Expr} (hl : Readable G l) (hr : Readable G r) :
    Readable G (.arithmetic op l r)
  | negate {e : Expr} (h : Readable G e) : Readable G (.negate e)
  | comparison (op : ComparisonOp) {l r : Expr} (hl : Readable G l) (hr : Readable G r) :
    Readable G (.comparison op l r)
  | logical (op : LogicalOp) {es : List Expr} (h : ∀ e ∈ es, Readable G e) :
    Readable G (.logical op es)
  | not {e : Expr} (h : Readable G e) : Readable G (.not e)
  | like {v p : Expr} (escape : Option Char) (negated : Bool) (hv : Readable G v)
    (hp : Readable G p) : Readable G (.like v p escape negated)
  | between {v low high : Expr} (negated : Bool) (hv : Readable G v) (hlow : Readable G low)
    (hhigh : Readable G high) : Readable G (.between v low high negated)
  | inList {v : Expr} {es : List Expr} (negated : Bool) (hne : es ≠ []) (hv : Readable G v)
    (hes : ∀ e ∈ es, Readable G e) : Readable G (.inList v es negated)
  | isNull {v : Expr} (negated : Bool) (hv : Readable G v) : Readable G (.isNull v negated)

namespace Expr

/-- The lexemes of an expression in the standard dialect. -/
def tokens (e : Expr) : List Lexeme :=
  (Dialect.standard.write (.expr e)).flatMap Emission.lexemes

/-- The lexemes of an operand: in parentheses where it needs them. -/
def operandTokens (parent : Strength) (side : Side) (e : Expr) : List Lexeme :=
  if needsParentheses parent e.strength side then .sign "(" :: (e.tokens ++ [.sign ")"])
  else e.tokens

end Expr

theorem lexemes_parenthesized (es : List Emission) :
    (Emission.parenthesized es).flatMap Emission.lexemes
      = .sign "(" :: (es.flatMap Emission.lexemes ++ [.sign ")"]) := by
  simp [Emission.parenthesized, Emission.lexemes]

theorem lexemes_operand (parent : Strength) (side : Side) (e : Expr) :
    (Emission.operand parent side e.strength (Dialect.standard.write (.expr e))).flatMap
        Emission.lexemes = e.operandTokens parent side := by
  rw [Emission.operand, Expr.operandTokens]
  split
  · exact lexemes_parenthesized _
  · rfl

theorem lexemes_keyword (w : String) :
    (Emission.keyword w).flatMap Emission.lexemes = lexemes w := by
  simp [Emission.keyword, Emission.lexemes]

theorem lexemes_separated (separator : String) (es : List Emission) (ls : List (List Emission)) :
    (Emission.separated separator (es :: ls)).flatMap Emission.lexemes
      = es.flatMap Emission.lexemes
        ++ ls.flatMap fun l => lexemes separator ++ l.flatMap Emission.lexemes := by
  simp [Emission.separated, Emission.lexemes, List.flatMap_assoc]

/-! ### The lexemes of every form -/

namespace Expr

theorem lexemes_pathText {G : Grammar} {p : Path} (h : p.IsReadable G) :
    lexemes p.text = [.word p.text] := by
  have hall : p.text.toList.all isPathChar = true := by
    rw [Path.text, String.toList_ofList]
    refine all_joined rfl fun cs hcs => ?_
    obtain ⟨s, hs, rfl⟩ := List.mem_map.1 hcs
    exact List.all_eq_true.2 fun c hc =>
      Lexer.isPathChar_of_isNameChar (Grammar.isNameChar_of_isName (h.2 s hs) c hc)
  have hne : p.text.toList ≠ [] := fun hnil =>
    h.text_ne (w := "") (by cases G <;> decide) (String.toList_eq_nil_iff.1 hnil)
  rw [lexemes, Lexer.read_word hall hne, String.ofList_toList]

theorem tokens_path {G : Grammar} {p : Path} (h : p.IsReadable G) :
    (path p).tokens = [.word p.text] := by
  rw [tokens, write_of_form rfl]
  simp [layout, Emission.lexemes, lexemes_pathText h]

theorem tokens_parameter (s : String) (v : Option Value) :
    (parameter s v).tokens = [.parameter s] := by
  rw [tokens, write_of_form rfl]
  rfl

theorem tokens_arithmetic (op : ArithmeticOp) (l r : Expr) :
    (arithmetic op l r).tokens = l.operandTokens op.strength .left
      ++ .sign op.symbol :: r.operandTokens op.strength (op.rightSide r) := by
  have hop : lexemes op.symbol = [.sign op.symbol] := by cases op <;> decide
  rw [tokens, write_of_form rfl]
  simp [layout, lexemes_operand, lexemes_keyword, hop]

theorem tokens_negate {e : Expr} (h : e.isNegativeLiteral = false) :
    (negate e).tokens = .sign "-" :: e.operandTokens .unary .strict := by
  have hminus : lexemes "-" = [.sign "-"] := by decide
  rw [tokens, write_of_form rfl]
  simp [layout, h, lexemes_operand, Emission.lexemes, hminus]

theorem tokens_comparison (op : ComparisonOp) (l r : Expr) :
    (comparison op l r).tokens = l.operandTokens .predicate .strict
      ++ .sign op.symbol :: r.operandTokens .predicate .strict := by
  have hop : lexemes op.symbol = [.sign op.symbol] := by cases op <;> decide
  rw [tokens, write_of_form rfl]
  simp [layout, lexemes_operand, lexemes_keyword, hop]

theorem tokens_not (e : Expr) : (not e).tokens = .word "NOT" :: e.operandTokens .not .left := by
  have hnot : lexemes "NOT" = [.word "NOT"] := by decide
  rw [tokens, write_of_form rfl]
  simp [layout, lexemes_operand, Emission.lexemes, hnot]

theorem tokens_like (v p : Expr) (escape : Option Char) (negated : Bool) :
    (like v p escape negated).tokens = v.operandTokens .predicate .strict
      ++ (negation negated
        ++ .word "LIKE" :: (p.operandTokens .predicate .strict ++ escaping escape)) := by
  have hlike : lexemes (negatable negated "LIKE") = negation negated ++ [.word "LIKE"] := by
    cases negated <;> decide
  have hescape : lexemes "ESCAPE" = [.word "ESCAPE"] := by decide
  rw [tokens, write_of_form rfl]
  cases escape <;>
    simp [layout, lexemes_operand, lexemes_keyword, hlike, hescape, escaping, Emission.lexemes]

theorem tokens_between (v low high : Expr) (negated : Bool) :
    (between v low high negated).tokens = v.operandTokens .predicate .strict
      ++ (negation negated ++ .word "BETWEEN" :: (low.operandTokens .predicate .strict
        ++ .word "AND" :: high.operandTokens .predicate .strict)) := by
  have hbetween : lexemes (negatable negated "BETWEEN")
      = negation negated ++ [.word "BETWEEN"] := by
    cases negated <;> decide
  have hand : lexemes "AND" = [.word "AND"] := by decide
  rw [tokens, write_of_form rfl]
  simp [layout, lexemes_operand, lexemes_keyword, hbetween, hand]

theorem tokens_inList (v e : Expr) (es : List Expr) (negated : Bool) :
    (inList v (e :: es) negated).tokens = v.operandTokens .predicate .strict
      ++ (negation negated ++ .word "IN" :: .sign "("
        :: ((e.tokens ++ es.flatMap fun f => .sign "," :: f.tokens) ++ [.sign ")"])) := by
  have hin : lexemes (negatable negated "IN") = negation negated ++ [.word "IN"] := by
    cases negated <;> decide
  have hcomma : lexemes ", " = [.sign ","] := by decide
  rw [tokens, write_of_form rfl]
  simp [layout, layoutsOfList_eq_map, lexemes_operand, lexemes_keyword, lexemes_parenthesized,
    lexemes_separated, hin, hcomma, List.flatMap_map, tokens]

theorem tokens_isNull (v : Expr) (negated : Bool) :
    (isNull v negated).tokens = v.operandTokens .predicate .strict
      ++ .word "IS" :: (negation negated ++ [.word "NULL"]) := by
  have hnull : lexemes (if negated then "IS NOT NULL" else "IS NULL")
      = .word "IS" :: (negation negated ++ [.word "NULL"]) := by
    cases negated <;> decide
  rw [tokens, write_of_form rfl]
  simp [layout, lexemes_operand, lexemes_keyword, hnull]

theorem tokens_logical_nil (op : LogicalOp) : (logical op []).tokens = lexemes op.identity := by
  rw [tokens, write_of_form rfl]
  simp [layout, layoutOfOperands, Emission.lexemes]

/-- A single operand is all that is written. -/
theorem tokens_logical_singleton (op : LogicalOp) (e : Expr) :
    (logical op [e]).tokens = e.tokens := by
  rw [tokens, write_of_form rfl]
  simp [layout, layoutOfOperands, tokens]

theorem tokens_logical (op : LogicalOp) (e f : Expr) (es : List Expr) :
    (logical op (e :: f :: es)).tokens = e.operandTokens op.strength .chained
      ++ (f :: es).flatMap fun g => .word op.symbol :: g.operandTokens op.strength .chained := by
  have hop : lexemes (" " ++ op.symbol ++ " ") = [.word op.symbol] := by cases op <;> decide
  rw [tokens, write_of_form rfl]
  simp [layout, layoutOfOperands, layoutsOfOperands_eq_map, lexemes_operand, lexemes_separated,
    hop, List.flatMap_map]

end Expr

/-! ### Readable expressions are written -/

theorem mem_nodesOfList {e : Expr} {es : List Expr} (h : e ∈ nodesOfList es) :
    ∃ f ∈ es, e ∈ f.nodes := by
  induction es with
  | nil => cases h
  | cons f es ih =>
    rw [nodesOfList, List.mem_append] at h
    rcases h with h | h
    · exact ⟨f, List.mem_cons_self, h⟩
    · obtain ⟨g, hg, he⟩ := ih h
      exact ⟨g, List.mem_cons_of_mem _ hg, he⟩

/-- The emission stops the layout. -/
def Emission.isStop : Emission → Bool
  | .stop _ => true
  | _ => false

/-- No emission of the layout stops it. -/
def Unstopped (es : List Emission) : Prop := ∀ fault, Emission.stop fault ∉ es

theorem unstopped_append {as bs : List Emission} :
    Unstopped (as ++ bs) ↔ Unstopped as ∧ Unstopped bs := by
  simp only [Unstopped, List.mem_append, not_or, forall_and]

theorem unstopped_cons {e : Emission} {es : List Emission} (he : e.isStop = false)
    (h : Unstopped es) : Unstopped (e :: es) := by
  intro fault hmem
  rcases List.mem_cons.1 hmem with rfl | hmem
  · cases he
  · exact h fault hmem

theorem unstopped_nil : Unstopped [] := fun _ => List.not_mem_nil

theorem unstopped_keyword (w : String) : Unstopped (Emission.keyword w) := by
  intro fault h
  simp [Emission.keyword] at h

theorem unstopped_parenthesized {es : List Emission} (h : Unstopped es) :
    Unstopped (Emission.parenthesized es) := by
  intro fault hmem
  simp [Emission.parenthesized, h fault] at hmem

theorem unstopped_operand {parent child : Strength} {side : Side} {es : List Emission}
    (h : Unstopped es) : Unstopped (Emission.operand parent side child es) := by
  rw [Emission.operand]
  split
  · exact unstopped_parenthesized h
  · exact h

theorem unstopped_separated {separator : String} {ls : List (List Emission)}
    (h : ∀ l ∈ ls, Unstopped l) : Unstopped (Emission.separated separator ls) := by
  cases ls with
  | nil => exact unstopped_nil
  | cons l ls =>
    intro fault hmem
    simp only [Emission.separated_cons, List.mem_append, List.mem_flatMap] at hmem
    rcases hmem with hmem | ⟨m, hm, hmem⟩
    · exact h l List.mem_cons_self fault hmem
    · simp at hmem
      exact h m (List.mem_cons_of_mem _ hm) fault hmem

namespace Readable

variable {G : Grammar}

/-- The expressions inside a readable one are readable. -/
theorem of_mem_nodes {e f : Expr} (h : Readable G e) (hf : f ∈ e.nodes) : Readable G f := by
  induction h with
  | path h =>
    rw [List.mem_singleton.1 hf]
    exact .path h
  | parameter v h =>
    rw [List.mem_singleton.1 hf]
    exact .parameter v h
  | arithmetic op hl hr ihl ihr =>
    rw [Expr.nodes, List.mem_cons, List.mem_append] at hf
    rcases hf with rfl | hf | hf
    · exact .arithmetic op hl hr
    · exact ihl hf
    · exact ihr hf
  | negate h ih =>
    rw [Expr.nodes, List.mem_cons] at hf
    rcases hf with rfl | hf
    · exact .negate h
    · exact ih hf
  | comparison op hl hr ihl ihr =>
    rw [Expr.nodes, List.mem_cons, List.mem_append] at hf
    rcases hf with rfl | hf | hf
    · exact .comparison op hl hr
    · exact ihl hf
    · exact ihr hf
  | logical op h ih =>
    rw [Expr.nodes, List.mem_cons] at hf
    rcases hf with rfl | hf
    · exact .logical op h
    · obtain ⟨g, hg, hf⟩ := mem_nodesOfList hf
      exact ih g hg hf
  | not h ih =>
    rw [Expr.nodes, List.mem_cons] at hf
    rcases hf with rfl | hf
    · exact .not h
    · exact ih hf
  | like escape negated hv hp ihv ihp =>
    rw [Expr.nodes, List.mem_cons, List.mem_append] at hf
    rcases hf with rfl | hf | hf
    · exact .like escape negated hv hp
    · exact ihv hf
    · exact ihp hf
  | between negated hv hlow hhigh ihv ihlow ihhigh =>
    rw [Expr.nodes, List.mem_cons, List.mem_append, List.mem_append] at hf
    rcases hf with rfl | (hf | hf) | hf
    · exact .between negated hv hlow hhigh
    · exact ihv hf
    · exact ihlow hf
    · exact ihhigh hf
  | inList negated hne hv hes ihv ihes =>
    rw [Expr.nodes, List.mem_cons, List.mem_append] at hf
    rcases hf with rfl | hf | hf
    · exact .inList negated hne hv hes
    · exact ihv hf
    · obtain ⟨g, hg, hf⟩ := mem_nodesOfList hf
      exact ihes g hg hf
  | isNull negated hv ih =>
    rw [Expr.nodes, List.mem_cons] at hf
    rcases hf with rfl | hf
    · exact .isNull negated hv
    · exact ih hf

theorem isNegativeLiteral_eq_false {e : Expr} (h : Readable G e) : e.isNegativeLiteral = false := by
  cases h <;> rfl

/-- Nothing stops the layout of a readable expression. -/
theorem unstopped {e : Expr} (h : Readable G e) :
    Unstopped (Dialect.standard.write (.expr e)) := by
  induction h with
  | path h =>
    rw [Expr.write_of_form rfl, Expr.layout]
    exact unstopped_cons rfl unstopped_nil
  | parameter v h =>
    rw [Expr.write_of_form rfl, Expr.layout]
    exact unstopped_cons rfl unstopped_nil
  | arithmetic op hl hr ihl ihr =>
    rw [Expr.write_of_form rfl]
    simp only [Expr.layout, Dialect.accept_expr, unstopped_append]
    exact ⟨⟨unstopped_operand ihl, unstopped_keyword _⟩, unstopped_operand ihr⟩
  | negate h ih =>
    rw [Expr.write_of_form rfl]
    simp only [Expr.layout, Dialect.accept_expr, h.isNegativeLiteral_eq_false]
    exact unstopped_cons rfl (unstopped_operand ih)
  | comparison op hl hr ihl ihr =>
    rw [Expr.write_of_form rfl]
    simp only [Expr.layout, Dialect.accept_expr, unstopped_append]
    exact ⟨⟨unstopped_operand ihl, unstopped_keyword _⟩, unstopped_operand ihr⟩
  | @logical op es h ih =>
    rw [Expr.write_of_form rfl, Expr.layout]
    rcases es with _ | ⟨e, _ | ⟨f, es⟩⟩
    · rw [layoutOfOperands]
      exact unstopped_cons rfl unstopped_nil
    · rw [layoutOfOperands, Dialect.accept_expr]
      exact ih e List.mem_cons_self
    · rw [layoutOfOperands, Dialect.accept_expr, layoutsOfOperands_eq_map, List.isEmpty_cons,
        if_neg Bool.false_ne_true]
      refine unstopped_separated ?_
      intro l hl
      rcases List.mem_cons.1 hl with rfl | hl
      · exact unstopped_operand (ih e List.mem_cons_self)
      · obtain ⟨g, hg, rfl⟩ := List.mem_map.1 hl
        exact unstopped_operand (ih g (List.mem_cons_of_mem _ hg))
  | not h ih =>
    rw [Expr.write_of_form rfl]
    simp only [Expr.layout, Dialect.accept_expr]
    exact unstopped_cons rfl (unstopped_cons rfl (unstopped_operand ih))
  | like escape negated hv hp ihv ihp =>
    rw [Expr.write_of_form rfl]
    simp only [Expr.layout, Dialect.accept_expr, unstopped_append]
    refine ⟨⟨⟨unstopped_operand ihv, unstopped_keyword _⟩, unstopped_operand ihp⟩, ?_⟩
    cases escape with
    | none => exact unstopped_nil
    | some c =>
      exact unstopped_append.2 ⟨unstopped_keyword _, unstopped_cons rfl unstopped_nil⟩
  | between negated hv hlow hhigh ihv ihlow ihhigh =>
    rw [Expr.write_of_form rfl]
    simp only [Expr.layout, Dialect.accept_expr, unstopped_append]
    exact ⟨⟨⟨⟨unstopped_operand ihv, unstopped_keyword _⟩, unstopped_operand ihlow⟩,
      unstopped_keyword _⟩, unstopped_operand ihhigh⟩
  | @inList v es negated hne hv hes ihv ihes =>
    have hempty : es.isEmpty = false := by simpa using hne
    rw [Expr.write_of_form rfl]
    simp only [Expr.layout, Dialect.accept_expr, hempty, layoutsOfList_eq_map]
    refine unstopped_append.2 ⟨unstopped_append.2 ⟨unstopped_operand ihv, unstopped_keyword _⟩, ?_⟩
    refine unstopped_parenthesized (unstopped_separated ?_)
    intro l hl
    obtain ⟨g, hg, rfl⟩ := List.mem_map.1 hl
    exact ihes g hg
  | isNull negated hv ih =>
    rw [Expr.write_of_form rfl]
    simp only [Expr.layout, Dialect.accept_expr, unstopped_append]
    exact ⟨unstopped_operand ih, unstopped_keyword _⟩

/-- The names in a readable expression have no other characters than names have. -/
theorem isPlain_ownNames {e : Expr} (h : Readable G e) {s : String} (hs : s ∈ e.ownNames) :
    isPlain s = true := by
  cases h with
  | path h =>
    refine List.all_eq_true.2 fun c hc => ?_
    have hname := Grammar.isNameChar_of_isName (h.2 s hs) c hc
    rw [isPlainChar, Bool.and_eq_true, bne_iff_ne, bne_iff_ne]
    constructor <;> rintro rfl <;> exact absurd hname (by decide)
  | _ => cases hs

/-- A readable expression whose parameters have values is written, and its text has the lexemes of
the expression. -/
theorem exists_rendered {e : Expr} (h : Readable G e) {b : Binder}
    (hbound : ∀ s v, Expr.parameter s v ∈ e.nodes → (b.valueFor s v).isSome = true)
    (hne : e.tokens ≠ []) :
    ∃ r, (Part.expr e).render .standard b = .ok r ∧ lexemes r.text = e.tokens := by
  have hnamed : Named (fun s => isPlain s = true) e.nodes := fun f hf s hs =>
    (h.of_mem_nodes hf).isPlain_ownNames hs
  have hnames : ∀ s v, Expr.parameter s v ∈ e.nodes → isParameterName s = true := fun s v hs => by
    cases h.of_mem_nodes hs with
    | parameter _ hname => exact hname
  have hwritten := Expr.written Dialect.standard_hasWords e hnamed
  refine Binder.exists_rendered hwritten hnames (fun x hx => ?_) hne
  cases x with
  | stop fault => exact absurd hx (h.unstopped fault)
  | value v =>
    -- it would be the literal of a node
    obtain ⟨n, hn, hr⟩ := hwritten.exists_of_request h.unstopped hx rfl
    cases h.of_mem_nodes hn <;> cases hr
  | parameter s v =>
    have hs := hwritten.mem_of_parameter hx
    exact ⟨hnames s v hs, hbound s v hs⟩
  | _ => trivial

end Readable

end PersistenceQuery
