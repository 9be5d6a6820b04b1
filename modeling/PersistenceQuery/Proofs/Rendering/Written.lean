import PersistenceQuery.Proofs.Query.Names
import PersistenceQuery.Rendering.Writing

/-!
# How layouts are put together

Every layout is made in a few ways from the layouts of the parts inside it.  `Written` is the
inductive form of this: what holds of single emissions, and is kept by parentheses and by the words
and spaces between two layouts, holds of all that is written.  It also records which expressions
have been written, in order, so that the order of emission is that of `Query.nodes`.

## Main definitions

* `Written P es ns` — the emissions write the expressions, with names that `P` holds of.
* `Emission.IsPiece P` — what a single emission of a layout can be.

## Main results

* `Written.pieces` — the emissions of a layout are pieces.
* `Written.mem_of_parameter` — the parameters of a layout are among the expressions that it writes.
* `Expr.written`, `Query.written` — expressions and queries are written.
-/

namespace PersistenceQuery

/-! ### Words and separators -/

/-- A character of the words and signs of the language. -/
def isWordChar (c : Char) : Bool := c.isAlphanum || "_ =<>+-*/".toList.contains c

/-- A word or sign of the language: not empty, and made of its characters. -/
def isWord (w : String) : Bool := !w.isEmpty && w.toList.all isWordChar

/-- What stands between the items of a list, and between operands. -/
def isSeparator (w : String) : Bool := [", ", " AND ", " OR "].contains w

/-- Every call of the dialect has a word for its keyword. -/
def Dialect.HasWords (D : Dialect) : Prop :=
  ∀ kind k w, D.rule? kind = some (.call k w) → isWord w = true

/-! ### Right operands of arithmetic -/

/-- On the right stands the same associative operator, or an operand that does not join. -/
theorem ArithmeticOp.rightSide_cases (op : ArithmeticOp) (r : Expr) :
    op.rightSide r = .chained ∧ op.isAssociative = true ∨ op.rightSide r = .right := by
  rw [rightSide.eq_def]
  split
  · split
    · next h => exact .inl ⟨rfl, h.2⟩
    · exact .inr rfl
  · exact .inr rfl

/-- Differences and quotients do not join. -/
theorem ArithmeticOp.rightSide_ne_chained {op : ArithmeticOp} (h : op.isAssociative = false)
    (r : Expr) : op.rightSide r ≠ .chained := by
  intro hside
  rcases op.rightSide_cases r with ⟨-, hop⟩ | hright
  · cases h.symm.trans hop
  · cases hside.symm.trans hright

theorem ArithmeticOp.strength_of_rightSide {op : ArithmeticOp} {r : Expr}
    (h : op.rightSide r = .chained) : r.strength = op.strength := by
  cases r with
  | arithmetic inner a b =>
    rw [rightSide] at h
    split at h
    · next hinner => exact congrArg strength hinner.1
    · cases h
  | _ => cases h

/-! ### Layouts of lists -/

section
variable (D : Dialect)

theorem layoutsOfList_eq_map (es : List Expr) :
    layoutsOfList D es = es.map fun e => D.write (.expr e) := by
  induction es with
  | nil => rfl
  | cons e es ih => rw [layoutsOfList, ih, Dialect.accept_expr, List.map_cons]

theorem layoutsOfOperands_eq_map (op : LogicalOp) (es : List Expr) :
    layoutsOfOperands D op es
      = es.map fun e => Emission.operand op.strength .chained e.strength (D.write (.expr e)) := by
  induction es with
  | nil => rfl
  | cons e es ih => rw [layoutsOfOperands, ih, Dialect.accept_expr, List.map_cons]

theorem layoutOfArms_eq_flatMap (arms : List Arm) :
    layoutOfArms D arms
      = arms.flatMap fun a => Emission.keyword "WHEN" ++ D.write (.expr a.condition)
        ++ Emission.keyword "THEN" ++ D.write (.expr a.result) := by
  induction arms with
  | nil => rfl
  | cons arm arms ih =>
    obtain ⟨condition, result⟩ := arm
    rw [layoutOfArms, ih, List.flatMap_cons]
    rfl

theorem layoutOfJoins_eq_flatMap (joins : List Join) :
    layoutOfJoins D joins = joins.flatMap fun j => .space :: D.write (.join j) := by
  induction joins with
  | nil => rfl
  | cons join joins ih => rw [layoutOfJoins, ih, Dialect.accept_join, List.flatMap_cons]

theorem layoutsOfSources_eq_map (sources : List Source) :
    layoutsOfSources D sources
      = sources.map fun s => D.write (.entity s.entity) ++ layoutOfJoins D s.joins := by
  induction sources with
  | nil => rfl
  | cons source sources ih =>
    obtain ⟨entity, joins⟩ := source
    rw [layoutsOfSources, ih, Dialect.accept_entity, List.map_cons]

theorem layoutsOfKeys_eq_map (keys : List SortKey) :
    layoutsOfKeys D keys = keys.map fun k => D.write (.sort k) := by
  induction keys with
  | nil => rfl
  | cons key keys ih => rw [layoutsOfKeys, ih, Dialect.accept_sort, List.map_cons]

end

/-! ### The ways of writing -/

/-- The expression is bound to a value when it is written: a literal or a named parameter. -/
def Expr.isBinding : Expr → Bool
  | .literal _ | .parameter _ _ => true
  | _ => false

/-- `Written P es ns`: the emissions `es` write the expressions `ns` in this order, and their names
are names that `P` holds of, or paths of such. -/
inductive Written (P : String → Prop) : List Emission → List Expr → Prop
  | nothing : Written P [] []
  | value {v : Value} (h : ∀ s ∈ v.names, P s) : Written P [.value v] [.literal v]
  | parameter (name : String) (embedded : Option Value) :
    Written P [.parameter name embedded] [.parameter name embedded]
  | name {s : String} (h : P s) : Written P [.name s] []
  | path {p : Path} (h : ∀ s ∈ p.segments, P s) : Written P [.name p.text] []
  | quoted (s : String) : Written P [.quoted s] []
  | word {w : String} (h : isWord w = true) : Written P [.word w] []
  /-- Where nothing more is written, the expressions that follow do not matter. -/
  | stop (fault : Fault) (ns : List Expr) : Written P [.stop fault] ns
  /-- An expression without a token of its own counts before those inside it. -/
  | inside {es : List Emission} {ns : List Expr} (e : Expr) (h : e.isBinding = false)
    (hes : Written P es ns) : Written P es (e :: ns)
  | parenthesized {es : List Emission} {ns : List Expr} (hes : Written P es ns) :
    Written P (Emission.parenthesized es) ns
  /-- The one sign that stands directly in front of an operand. -/
  | minus {es : List Emission} {ns : List Expr} (hes : Written P es ns) :
    Written P (.word "-" :: es) ns
  /-- The keyword of a call, directly in front of the parenthesis. -/
  | applied {w : String} {es : List Emission} {ns : List Expr} (h : isWord w = true)
    (hes : Written P es ns) : Written P (.word w :: Emission.parenthesized es) ns
  | spaced {as bs : List Emission} {ms ns : List Expr} (has : Written P as ms)
    (hbs : Written P bs ns) : Written P (as ++ .space :: bs) (ms ++ ns)
  | separated {w : String} {as bs : List Emission} {ms ns : List Expr} (h : isSeparator w = true)
    (has : Written P as ms) (hbs : Written P bs ns) :
    Written P (as ++ .word w :: bs) (ms ++ ns)

/-- What a single emission of a layout can be, where `P` holds of the names in it. -/
inductive Emission.IsPiece (P : String → Prop) : Emission → Prop
  | value {v : Value} (h : ∀ s ∈ v.names, P s) : IsPiece P (.value v)
  | parameter (name : String) (embedded : Option Value) : IsPiece P (.parameter name embedded)
  | name {s : String} (h : P s) : IsPiece P (.name s)
  | path {p : Path} (h : ∀ s ∈ p.segments, P s) : IsPiece P (.name p.text)
  | quoted (s : String) : IsPiece P (.quoted s)
  | word {w : String} (h : isWord w = true ∨ isSeparator w = true) : IsPiece P (.word w)
  | stop (fault : Fault) : IsPiece P (.stop fault)
  | space : IsPiece P .space
  | opening : IsPiece P .opening
  | closing : IsPiece P .closing

/-- Layouts that each write some expressions, in order. -/
inductive WrittenItems (P : String → Prop) : List (List Emission) → List Expr → Prop
  | nil : WrittenItems P [] []
  | cons {es : List Emission} {ls : List (List Emission)} {ms ns : List Expr}
    (hes : Written P es ms) (hls : WrittenItems P ls ns) : WrittenItems P (es :: ls) (ms ++ ns)

namespace Written

variable {P : String → Prop} {es as bs : List Emission} {ns ms : List Expr}

/-- Whatever holds of the pieces holds of all emissions of a layout. -/
theorem pieces (h : Written P es ns) : ∀ e ∈ es, e.IsPiece P := by
  have hparenthesized : ∀ {es : List Emission}, (∀ e ∈ es, e.IsPiece P) →
      ∀ e ∈ Emission.parenthesized es, e.IsPiece P := fun hes =>
    List.forall_mem_cons.2 ⟨.opening, List.forall_mem_append.2
      ⟨hes, List.forall_mem_singleton.2 .closing⟩⟩
  induction h with
  | nothing => exact List.forall_mem_nil _
  | value h => exact List.forall_mem_singleton.2 (.value h)
  | parameter name embedded => exact List.forall_mem_singleton.2 (.parameter name embedded)
  | name h => exact List.forall_mem_singleton.2 (.name h)
  | path h => exact List.forall_mem_singleton.2 (.path h)
  | quoted s => exact List.forall_mem_singleton.2 (.quoted s)
  | word h => exact List.forall_mem_singleton.2 (.word (.inl h))
  | stop fault _ => exact List.forall_mem_singleton.2 (.stop fault)
  | inside _ _ _ ih => exact ih
  | parenthesized _ ih => exact hparenthesized ih
  | minus _ ih => exact List.forall_mem_cons.2 ⟨.word (.inl rfl), ih⟩
  | applied h _ ih => exact List.forall_mem_cons.2 ⟨.word (.inl h), hparenthesized ih⟩
  | spaced _ _ iha ihb =>
    exact List.forall_mem_append.2 ⟨iha, List.forall_mem_cons.2 ⟨.space, ihb⟩⟩
  | separated h _ _ iha ihb =>
    exact List.forall_mem_append.2 ⟨iha, List.forall_mem_cons.2 ⟨.word (.inr h), ihb⟩⟩

/-- A parameter of a layout is among the expressions that are written, also of a layout that
stops. -/
theorem mem_of_parameter (h : Written P es ns) {s : String} {v : Option Value}
    (hs : Emission.parameter s v ∈ es) : Expr.parameter s v ∈ ns := by
  induction h with
  | parameter name embedded =>
    obtain ⟨rfl, rfl⟩ := Emission.parameter.inj (List.mem_singleton.1 hs)
    exact List.mem_singleton_self _
  | inside e _ _ ih => exact List.mem_cons_of_mem _ (ih hs)
  | parenthesized _ ih => exact ih (by simpa [Emission.parenthesized] using hs)
  | minus _ ih => exact ih (by simpa using hs)
  | applied _ _ ih => exact ih (by simpa [Emission.parenthesized] using hs)
  | spaced _ _ iha ihb | separated _ _ _ iha ihb =>
    simp only [List.mem_append, List.mem_cons, reduceCtorEq, false_or] at hs ⊢
    exact hs.imp iha ihb
  | _ => simp at hs

/-- A word with a space behind it. -/
theorem lead {w : String} (h : isWord w = true) (hes : Written P es ns) :
    Written P (.word w :: .space :: es) ns := by
  have hw : Written P [.word w] [] := .word h
  exact hw.spaced hes

theorem keyword {w : String} (h : isWord w = true) (has : Written P as ms)
    (hbs : Written P bs ns) : Written P (as ++ Emission.keyword w ++ bs) (ms ++ ns) := by
  have hw : Written P (.word w :: .space :: bs) ns := hbs.lead h
  simpa [Emission.keyword] using has.spaced hw

/-- A keyword behind which no expression is written. -/
theorem keywordTail {w : String} (h : isWord w = true) (has : Written P as ms)
    (hbs : Written P bs []) : Written P (as ++ Emission.keyword w ++ bs) ms := by
  simpa using has.keyword h hbs

/-- A keyword behind which nothing follows. -/
theorem ending {w : String} (h : isWord w = true) (has : Written P as ms) :
    Written P (as ++ Emission.keyword w) ms := by
  simpa using has.keywordTail h .nothing

theorem operand {parent child : Strength} {side : Side} (hes : Written P es ns) :
    Written P (Emission.operand parent side child es) ns := by
  unfold Emission.operand
  split
  · exact hes.parenthesized
  · exact hes

/-- Behind an expression further items follow, each behind a separator. -/
theorem items {w : String} (h : isSeparator w = true) {ls : List (List Emission)}
    (has : Written P as ms) (hls : WrittenItems P ls ns) :
    Written P (as ++ ls.flatMap (.word w :: ·)) (ms ++ ns) := by
  induction hls generalizing as ms with
  | nil => simpa using has
  | cons hes _ ih => simpa [List.append_assoc] using ih (has.separated h hes)

theorem separatedItems {w : String} (h : isSeparator w = true) {ls : List (List Emission)}
    (hls : WrittenItems P ls ns) : Written P (Emission.separated w ls) ns := by
  cases hls with
  | nil => exact .nothing
  | cons hes hls => exact hes.items h hls

theorem call {w : String} (h : isWord w = true) {ls : List (List Emission)}
    (hls : WrittenItems P ls ns) : Written P (Emission.call w ls) ns :=
  .applied h (separatedItems rfl hls)

/-- An optional expression behind a space or a keyword. -/
theorem option {D : Dialect} {o : Option Expr} (has : Written P as ms)
    (ho : ∀ e, o = some e → Written P (D.write (.expr e)) e.nodes) :
    Written P (as ++ layoutOfOption D o [.space]) (ms ++ nodesOfOption o) := by
  cases o with
  | none => simpa [layoutOfOption, nodesOfOption] using has
  | some e => simpa [layoutOfOption, nodesOfOption] using has.spaced (ho e rfl)

theorem keywordOption {D : Dialect} {o : Option Expr} {w : String} (h : isWord w = true)
    (has : Written P as ms) (ho : ∀ e, o = some e → Written P (D.write (.expr e)) e.nodes) :
    Written P (as ++ layoutOfOption D o (Emission.keyword w)) (ms ++ nodesOfOption o) := by
  cases o with
  | none => simpa [layoutOfOption, nodesOfOption] using has
  | some e => simpa [layoutOfOption, nodesOfOption] using has.keyword h (ho e rfl)

/-- A list behind a keyword. -/
theorem keywordItems {w : String} (h : isWord w = true) {ls : List (List Emission)}
    (has : Written P as ms) (hls : WrittenItems P ls ns) :
    Written P (as ++ Emission.keyword w ++ Emission.separated ", " ls) (ms ++ ns) :=
  has.keyword h (separatedItems rfl hls)

/-- A list behind a keyword, which is left out with an empty list. -/
theorem clause {α : Type} {w : String} (h : isWord w = true) (xs : List α)
    {ls : List (List Emission)} (hempty : xs = [] → ns = []) (has : Written P as ms)
    (hls : WrittenItems P ls ns) :
    Written P (as ++ if xs.isEmpty then [] else Emission.keyword w ++ Emission.separated ", " ls)
      (ms ++ ns) := by
  cases xs with
  | nil => simpa [hempty rfl] using has
  | cons x xs => simpa using has.keywordItems h hls

/-- A part by the rule of a dialect: the layout with some word, or nothing more. -/
theorem accept {D : Dialect} (hD : D.HasWords) {p : Part} {layout : String → List Emission}
    (h : ∀ w, (∀ kind, p.form = .call kind → isWord w = true) → Written P (layout w) ns) :
    Written P (D.accept p layout) ns := by
  unfold Dialect.accept
  split
  · exact .stop _ _
  · next r hr =>
    unfold Rule.accept
    split
    · next hfit =>
      refine h _ ?_
      intro kind hk
      unfold Rule.fits at hfit
      rw [hk, beq_iff_eq] at hfit
      -- a rule for calls is made for a kind, and its keyword is a word
      cases r with
      | construct c => simp [Rule.form] at hfit
      | call k w => exact hD _ _ _ hr
    · exact .stop _ _

end Written

/-! ### Names -/

/-- The names that the expressions bring themselves satisfy `P`. -/
def Named (P : String → Prop) (ns : List Expr) : Prop := ∀ e ∈ ns, ∀ s ∈ e.ownNames, P s

theorem named_cons {P : String → Prop} {e : Expr} {ns : List Expr} :
    Named P (e :: ns) ↔ (∀ s ∈ e.ownNames, P s) ∧ Named P ns := by
  simp [Named]

theorem named_append {P : String → Prop} {ms ns : List Expr} :
    Named P (ms ++ ns) ↔ Named P ms ∧ Named P ns := by
  simp only [Named, List.mem_append]
  constructor
  · intro h
    exact ⟨fun e he => h e (.inl he), fun e he => h e (.inr he)⟩
  · rintro ⟨hm, hn⟩ e (he | he)
    · exact hm e he
    · exact hn e he

/-! ### Every layout is put together in these ways -/

section
variable {P : String → Prop} {D : Dialect}

theorem Entity.written_layout {e : Entity} (h : ∀ s ∈ e.names, P s) :
    Written P e.layout [] := by
  have hname : Written P [.name e.name] [] := .name (h _ (by simp [Entity.names]))
  have hlabel : Written P [.name e.label] [] := .name (h _ (by simp [Entity.names]))
  exact hname.keyword rfl hlabel

theorem Entity.written (hD : D.HasWords) {e : Entity} (h : ∀ s ∈ e.names, P s) :
    Written P (D.write (.entity e)) [] :=
  .accept hD fun _ _ => Entity.written_layout h

theorem JoinTarget.written (hD : D.HasWords) {t : JoinTarget} (h : ∀ s ∈ t.names, P s) :
    Written P (t.layout D) [] := by
  cases t with
  | entity e => exact Entity.written hD h
  | association path label =>
    have hpath : Written P [.name path.text] [] :=
      .path fun s hs => h s (by simp [JoinTarget.names, hs])
    have hlabel : Written P [.name label] [] := .name (h _ (by simp [JoinTarget.names]))
    exact hpath.keyword rfl hlabel

mutual

/-- An expression writes itself and then the expressions inside it. -/
theorem Expr.written (hD : D.HasWords) : ∀ e : Expr, Named P e.nodes →
    Written P (D.write (.expr e)) e.nodes
  | .literal v, hn => .accept hD fun _ _ => .value (named_cons.1 hn).1
  | .parameter name embedded, _ => .accept hD fun _ _ => .parameter name embedded
  | .path p, hn => .accept hD fun _ _ => .inside _ rfl (.path (named_cons.1 hn).1)
  | .entity e, hn => .accept hD fun _ _ =>
    .inside _ rfl (.name ((named_cons.1 hn).1 _ (by simp [Expr.ownNames, Entity.names])))
  | .aliased v label, hn => .accept hD fun _ _ => by
    obtain ⟨hown, hv⟩ := named_cons.1 hn
    have hlabel : Written P [.name label] [] := .name (hown _ (by simp [Expr.ownNames]))
    exact .inside _ rfl ((Expr.written hD v hv).operand.keywordTail rfl hlabel)
  | .arithmetic op l r, hn => .accept hD fun _ _ => by
    obtain ⟨hl, hr⟩ := named_append.1 (named_cons.1 hn).2
    have hop : isWord op.symbol = true := by cases op <;> rfl
    exact .inside _ rfl
      ((Expr.written hD l hl).operand.keyword hop (Expr.written hD r hr).operand)
  | .negate v, hn => .accept hD fun _ _ => by
    have hv := Expr.written hD v (named_cons.1 hn).2
    refine .inside _ rfl (.minus ?_)
    split
    · exact hv.parenthesized
    · exact hv.operand
  | .choice subject arms otherwise, hn => .accept hD fun _ _ => by
    obtain ⟨hn, ho⟩ := named_append.1 (named_cons.1 hn).2
    obtain ⟨hs, ha⟩ := named_append.1 hn
    have hcase : Written P [.word "CASE"] [] := .word rfl
    have harms := Arm.writtenList hD arms ha (hcase.option (Expr.writtenOption hD subject hs))
    have helse := harms.keywordOption (w := "ELSE") rfl (Expr.writtenOption hD otherwise ho)
    have hend := helse.ending (w := "END") rfl
    exact .inside _ rfl (by simpa [Part.layout, Expr.layout] using hend)
  | .subquery q, hn => .accept hD fun _ _ => by
    obtain ⟨hown, hq⟩ := named_cons.1 hn
    exact .inside _ rfl (Select.written hD q hown hq).parenthesized
  | .comparison op l r, hn => .accept hD fun _ _ => by
    obtain ⟨hl, hr⟩ := named_append.1 (named_cons.1 hn).2
    have hop : isWord op.symbol = true := by cases op <;> rfl
    exact .inside _ rfl
      ((Expr.written hD l hl).operand.keyword hop (Expr.written hD r hr).operand)
  | .logical op [], _ => .accept hD fun _ _ => by
    have hop : isWord op.identity = true := by cases op <;> rfl
    exact .inside _ rfl (.word hop)
  | .logical op [e], hn => .accept hD fun _ _ => by
    have he := Expr.written hD e (named_append.1 (named_cons.1 hn).2).1
    refine .inside _ rfl ?_
    simpa [Part.layout, Expr.layout, layoutOfOperands, nodesOfList] using he
  | .logical op (e :: f :: es), hn => .accept hD fun _ _ => by
    have hop : isSeparator (" " ++ op.symbol ++ " ") = true := by cases op <;> rfl
    have hes := Expr.writtenOperands hD op (e :: f :: es) (named_cons.1 hn).2
    exact .inside _ rfl (.separatedItems hop hes)
  | .not e, hn => .accept hD fun _ _ =>
    .inside _ rfl ((Expr.written hD e (named_cons.1 hn).2).operand.lead rfl)
  | .like v p escape negated, hn => .accept hD fun _ _ => by
    obtain ⟨hv, hp⟩ := named_append.1 (named_cons.1 hn).2
    have hword : isWord (negatable negated "LIKE") = true := by cases negated <;> rfl
    have hvalue : Written P (Emission.operand .predicate .strict v.strength (D.write (.expr v)))
        v.nodes := (Expr.written hD v hv).operand
    have hpattern : Written P (Emission.operand .predicate .strict p.strength (D.write (.expr p)))
        p.nodes := (Expr.written hD p hp).operand
    have hlike := hvalue.keyword hword hpattern
    refine .inside _ rfl ?_
    cases escape with
    | none => simpa [Part.layout, Expr.layout] using hlike
    | some c =>
      have hc : Written P [.quoted (String.singleton c)] [] := .quoted _
      simpa [Part.layout, Expr.layout] using hlike.keywordTail (w := "ESCAPE") rfl hc
  | .between v low high negated, hn => .accept hD fun _ _ => by
    obtain ⟨hn, hhigh⟩ := named_append.1 (named_cons.1 hn).2
    obtain ⟨hv, hlow⟩ := named_append.1 hn
    have hword : isWord (negatable negated "BETWEEN") = true := by cases negated <;> rfl
    exact .inside _ rfl (((Expr.written hD v hv).operand.keyword hword
      (Expr.written hD low hlow).operand).keyword rfl (Expr.written hD high hhigh).operand)
  | .inList v es negated, hn => .accept hD fun _ _ => by
    obtain ⟨hv, hes⟩ := named_append.1 (named_cons.1 hn).2
    have hword : isWord (negatable negated "IN") = true := by cases negated <;> rfl
    have hmembers := Written.separatedItems (w := ", ") rfl (Expr.writtenList hD es hes)
    rw [Part.layout, Expr.layout]
    split
    · exact .stop _ _
    · exact .inside _ rfl ((Expr.written hD v hv).operand.keyword hword hmembers.parenthesized)
  | .inSubquery v q negated, hn => .accept hD fun _ _ => by
    obtain ⟨hown, hn⟩ := named_cons.1 hn
    obtain ⟨hv, hq⟩ := named_append.1 hn
    have hword : isWord (negatable negated "IN") = true := by cases negated <;> rfl
    have hquery := (Select.written hD q hown hq).parenthesized
    exact .inside _ rfl ((Expr.written hD v hv).operand.keyword hword hquery)
  | .isNull v negated, hn => .accept hD fun _ _ => by
    have hv := Expr.written hD v (named_cons.1 hn).2
    exact .inside _ rfl (hv.operand.ending (by cases negated <;> rfl))
  | .isEmpty p negated, hn => .accept hD fun _ _ => by
    have hp : Written P [.name p.text] [] := .path (named_cons.1 hn).1
    exact .inside _ rfl (hp.ending (by cases negated <;> rfl))
  | .memberOf v p negated, hn => .accept hD fun _ _ => by
    obtain ⟨hown, hv⟩ := named_cons.1 hn
    have hp : Written P [.name p.text] [] := .path hown
    have hword : isWord (negatable negated "MEMBER OF") = true := by cases negated <;> rfl
    exact .inside _ rfl ((Expr.written hD v hv).operand.keywordTail hword hp)
  | .exists q negated, hn => .accept hD fun _ _ => by
    obtain ⟨hown, hq⟩ := named_cons.1 hn
    have hword : isWord (negatable negated "EXISTS") = true := by cases negated <;> rfl
    exact .inside _ rfl ((Select.written hD q hown hq).parenthesized.lead hword)
  | .unary f v, hn => .accept hD fun _ hw => by
    have h := WrittenItems.cons (Expr.written hD v (named_cons.1 hn).2) .nil
    exact .inside _ rfl (.call (hw _ rfl) (by simpa using h))
  | .current m, _ => .accept hD fun _ hw => .inside _ rfl (.call (hw _ rfl) .nil)
  | .variadic f es, hn => .accept hD fun _ hw =>
    .inside _ rfl (.call (hw _ rfl) (Expr.writtenList hD es (named_cons.1 hn).2))
  | .substring v start length, hn => .accept hD fun _ hw => by
    obtain ⟨hn, hlength⟩ := named_append.1 (named_cons.1 hn).2
    obtain ⟨hv, hstart⟩ := named_append.1 hn
    have hoption := Expr.writtenOption hD length hlength
    have h : WrittenItems P (layoutsOfOption D length) (nodesOfOption length) := by
      cases length with
      | none => exact .nil
      | some e =>
        simpa [nodesOfOption, layoutsOfOption] using WrittenItems.cons (hoption e rfl) .nil
    have hall := WrittenItems.cons (Expr.written hD v hv)
      (.cons (Expr.written hD start hstart) h)
    exact .inside _ rfl (.call (hw _ rfl) (by simpa using hall))
  | .nullIf l r, hn => .accept hD fun _ hw => by
    obtain ⟨hl, hr⟩ := named_append.1 (named_cons.1 hn).2
    have h := WrittenItems.cons (Expr.written hD l hl) (.cons (Expr.written hD r hr) .nil)
    exact .inside _ rfl (.call (hw _ rfl) (by simpa using h))
  | .aggregate f distinct v, hn => .accept hD fun _ _ => by
    have hv := Expr.written hD v (named_cons.1 hn).2
    have hf : isWord f.keyword = true := by cases f <;> rfl
    refine .inside _ rfl (.applied hf ?_)
    cases distinct with
    | false => exact hv
    | true => exact hv.lead rfl
  | .function name es, hn => .accept hD fun _ _ => by
    have h := WrittenItems.cons (.quoted name) (Expr.writtenList hD es (named_cons.1 hn).2)
    exact .inside _ rfl (.call rfl (by simpa using h))
  | .custom kind es, hn => .accept hD fun _ hw =>
    .inside _ rfl (.call (hw _ rfl) (Expr.writtenList hD es (named_cons.1 hn).2))

theorem Expr.writtenOption (hD : D.HasWords) : ∀ o : Option Expr, Named P (nodesOfOption o) →
    ∀ e, o = some e → Written P (D.write (.expr e)) e.nodes
  | some e, hn, _, rfl => Expr.written hD e hn

theorem Expr.writtenList (hD : D.HasWords) : ∀ es : List Expr, Named P (nodesOfList es) →
    WrittenItems P (layoutsOfList D es) (nodesOfList es)
  | [], _ => .nil
  | e :: es, hn => by
    obtain ⟨he, hes⟩ := named_append.1 hn
    exact .cons (Expr.written hD e he) (Expr.writtenList hD es hes)

theorem Expr.writtenOperands (hD : D.HasWords) (op : LogicalOp) : ∀ es : List Expr,
    Named P (nodesOfList es) → WrittenItems P (layoutsOfOperands D op es) (nodesOfList es)
  | [], _ => .nil
  | e :: es, hn => by
    obtain ⟨he, hes⟩ := named_append.1 hn
    exact .cons (Expr.written hD e he).operand (Expr.writtenOperands hD op es hes)

theorem Arm.writtenList (hD : D.HasWords) : ∀ arms : List Arm, Named P (nodesOfArms arms) →
    ∀ {as : List Emission} {ms : List Expr}, Written P as ms →
    Written P (as ++ layoutOfArms D arms) (ms ++ nodesOfArms arms)
  | [], _, _, _, has => by simpa [layoutOfArms, nodesOfArms] using has
  | ⟨condition, result⟩ :: arms, hn, _, _, has => by
    obtain ⟨hn, harms⟩ := named_append.1 hn
    obtain ⟨hc, hr⟩ := named_append.1 hn
    have h := (has.keyword (w := "WHEN") rfl (Expr.written hD condition hc)).keyword
      (w := "THEN") rfl (Expr.written hD result hr)
    simpa [layoutOfArms, nodesOfArms] using Arm.writtenList hD arms harms h

/-- A selecting query writes its expressions clause by clause. -/
theorem Select.written (hD : D.HasWords) : ∀ q : Select, (∀ s ∈ q.ownNames, P s) →
    Named P q.nodes → Written P (D.write (.select q)) q.nodes
  | ⟨resultType, distinct, items, sources, filter, groupBy, having, orderBy⟩, hown, hn =>
    .accept hD fun _ _ => by
      obtain ⟨hn, horder⟩ := named_append.1 hn
      obtain ⟨hn, hhaving⟩ := named_append.1 hn
      obtain ⟨hn, hgroup⟩ := named_append.1 hn
      obtain ⟨hn, hfilter⟩ := named_append.1 hn
      obtain ⟨hitems, hsources⟩ := named_append.1 hn
      have h := Written.separatedItems (w := ", ") rfl (Expr.writtenList hD items hitems)
      have hselect : Written P (.word "SELECT" :: .space :: (if distinct then
          [.word "DISTINCT", .space] else []) ++ Emission.separated ", " (layoutsOfList D items))
          (nodesOfList items) := by
        cases distinct with
        | false => exact h.lead rfl
        | true => exact (h.lead (w := "DISTINCT") rfl).lead rfl
      have hfrom := hselect.keywordItems (w := "FROM") rfl
        (Source.writtenList hD sources hown hsources)
      have hwhere := hfrom.keywordOption (w := "WHERE") rfl
        (Expr.writtenOption hD filter hfilter)
      have hgrouped := hwhere.clause (w := "GROUP BY") rfl groupBy
        (fun h => by rw [h, nodesOfList]) (Expr.writtenList hD groupBy hgroup)
      have hhad := hgrouped.keywordOption (w := "HAVING") rfl
        (Expr.writtenOption hD having hhaving)
      exact hhad.clause rfl orderBy (fun h => by rw [h, nodesOfKeys])
        (SortKey.writtenList hD orderBy horder)

theorem Source.writtenList (hD : D.HasWords) : ∀ sources : List Source,
    (∀ s ∈ sources.flatMap Source.ownNames, P s) → Named P (nodesOfSources sources) →
    WrittenItems P (layoutsOfSources D sources) (nodesOfSources sources)
  | [], _, _ => .nil
  | ⟨entity, joins⟩ :: sources, hown, hn => by
    obtain ⟨hjoins, hsources⟩ := named_append.1 hn
    rw [List.flatMap_cons, List.forall_mem_append, Source.ownNames, List.forall_mem_append] at hown
    obtain ⟨⟨hentity, htargets⟩, hothers⟩ := hown
    have h := Join.writtenList hD joins htargets hjoins (Entity.written hD hentity)
    exact .cons (by simpa using h) (Source.writtenList hD sources hothers hsources)

theorem Join.writtenList (hD : D.HasWords) : ∀ joins : List Join,
    (∀ s ∈ joins.flatMap fun j => j.target.names, P s) → Named P (nodesOfJoins joins) →
    ∀ {as : List Emission} {ms : List Expr}, Written P as ms →
    Written P (as ++ layoutOfJoins D joins) (ms ++ nodesOfJoins joins)
  | [], _, _, _, _, has => by simpa [layoutOfJoins, nodesOfJoins] using has
  | ⟨kind, fetch, target, condition⟩ :: joins, hown, hn, _, _, has => by
    obtain ⟨hcondition, hjoins⟩ := named_append.1 hn
    rw [List.flatMap_cons, List.forall_mem_append] at hown
    obtain ⟨htarget, hothers⟩ := hown
    have hkind : isWord kind.keyword = true := by cases kind <;> rfl
    have hjoin : Written P (D.write (.join ⟨kind, fetch, target, condition⟩))
        (nodesOfOption condition) := .accept hD fun _ _ => by
      have h := JoinTarget.written hD htarget
      have hlead : Written P (.word kind.keyword :: .space :: (if fetch then
          [.word "FETCH", .space] else []) ++ target.layout D) [] := by
        cases fetch with
        | false => exact h.lead hkind
        | true => exact (h.lead (w := "FETCH") rfl).lead hkind
      exact hlead.keywordOption rfl (Expr.writtenOption hD condition hcondition)
    have h := Join.writtenList hD joins hothers hjoins (has.spaced hjoin)
    simpa [layoutOfJoins, nodesOfJoins] using h

theorem SortKey.writtenList (hD : D.HasWords) : ∀ keys : List SortKey,
    Named P (nodesOfKeys keys) → WrittenItems P (layoutsOfKeys D keys) (nodesOfKeys keys)
  | [], _ => .nil
  | ⟨key, order, nulls⟩ :: keys, hn => by
    obtain ⟨hkey, hkeys⟩ := named_append.1 hn
    have horder : Written P [.word order.keyword] [] := .word (by cases order <;> rfl)
    have h := (Expr.written hD key hkey).spaced horder
    have hsort : Written P (D.write (.sort ⟨key, order, nulls⟩)) key.nodes :=
      .accept hD fun _ _ => by
        cases nulls with
        | none => simpa [Part.layout, SortKey.layout] using h
        | some n =>
          have hnulls : Written P [.word n.keyword] [] := .word (by cases n <;> rfl)
          simpa [Part.layout, SortKey.layout] using h.spaced hnulls
    exact .cons hsort (SortKey.writtenList hD keys hkeys)

end

/-! ### Queries -/

theorem Assignment.writtenList (hD : D.HasWords) : ∀ as : List Assignment,
    (∀ s ∈ as.flatMap fun a => a.path.segments, P s) →
    Named P (as.flatMap fun a => a.value.nodes) →
    WrittenItems P (as.map fun a => D.write (.assignment a)) (as.flatMap fun a => a.value.nodes)
  | [], _, _ => .nil
  | ⟨path, value⟩ :: as, hown, hn => by
    rw [List.flatMap_cons, List.forall_mem_append] at hown
    obtain ⟨hvalue, hothers⟩ := named_append.1 hn
    have hpath : Written P [.name path.text] [] := .path hown.1
    have hset : Written P (D.write (.assignment ⟨path, value⟩)) value.nodes :=
      .accept hD fun _ _ => hpath.keyword rfl (Expr.written hD value hvalue)
    exact .cons hset (Assignment.writtenList hD as hown.2 hothers)

/-- A query writes its expressions in the order of its nodes. -/
theorem Query.written (hD : D.HasWords) (q : Query) (hn : ∀ s ∈ q.names, P s) :
    Written P (D.write q.part) q.nodes := by
  rw [Query.names, List.forall_mem_append] at hn
  obtain ⟨hown, hnodes⟩ := hn
  have hnamed : Named P q.nodes := fun e he s hs => hnodes s (List.mem_flatMap.2 ⟨e, he, hs⟩)
  cases q with
  | select q => exact Select.written hD q hown hnamed
  | update q =>
    obtain ⟨hvalues, hfilter⟩ := named_append.1 hnamed
    obtain ⟨hentity, hpaths⟩ := List.forall_mem_append.1 hown
    have hupdate := (Entity.written (D := D) hD hentity).lead (w := "UPDATE") rfl
    have hset := hupdate.keywordItems (w := "SET") rfl
      (Assignment.writtenList hD q.assignments hpaths hvalues)
    exact .accept hD fun _ _ =>
      hset.keywordOption rfl (Expr.writtenOption hD q.filter hfilter)
  | delete q =>
    have hdelete := (Entity.written (D := D) hD hown).lead (w := "DELETE FROM") rfl
    exact .accept hD fun _ _ =>
      hdelete.keywordOption rfl (Expr.writtenOption hD q.filter hnamed)

end

end PersistenceQuery
