import Mathlib.Algebra.Order.BigOperators.Group.List
import Mathlib.Algebra.Order.Group.Nat
import Mathlib.Data.Nat.Find
import PersistenceQuery.Proofs.Binding.FreshName
import PersistenceQuery.Query.Nodes

/-!
# One pass over the expressions

Which parameters a query gets can be said without writing it: one pass over its expressions
collects them.  The pass names a literal by the least ordinal behind those it has used whose name
is not reserved; it knows neither the text nor the bounded search of a binder.

## Main definitions

* `Pass`, `Pass.visit`, `Pass.run` — the parameters so far, one expression, and a list of them.
* `Follows` — a binder that has come as far as a pass.

## Main results

* `Follows.visit`, `Follows.run` — a binder that answers the requests of the expressions stays
  with the pass.
* `Pass.sorted_run` — the literals have names of their own, in their order.
-/

namespace PersistenceQuery

/-- The parameters that a pass has collected. -/
structure Pass where
  /-- The ordinals of the names generated so far. -/
  generated : List Nat
  entries : List (String × Value)

namespace Pass

/-- An ordinal that may be generated next: positive, greater than those before, and with a name
that is not reserved. -/
def IsFree (reserved : List String) (generated : List Nat) (n : Nat) : Prop :=
  0 < n ∧ (∀ m ∈ generated, m < n) ∧ placeholderName n ∉ reserved

instance (reserved : List String) (generated : List Nat) :
    DecidablePred (IsFree reserved generated) := fun n =>
  inferInstanceAs (Decidable (0 < n ∧ (∀ m ∈ generated, m < n) ∧ placeholderName n ∉ reserved))

theorem exists_isFree (reserved : List String) (generated : List Nat) :
    ∃ n, IsFree reserved generated n := by
  obtain ⟨n, hle, -, hfree⟩ := exists_unnamed reserved (generated.sum + 1)
  refine ⟨n, by omega, ?_, hfree⟩
  intro m hm
  have := List.le_sum_of_mem hm
  omega

/-- The least ordinal that may be generated next. -/
def nextOrdinal (reserved : List String) (generated : List Nat) : Nat :=
  Nat.find (exists_isFree reserved generated)

/-- Nothing is collected yet. -/
def start : Pass := ⟨[], []⟩

/-- What an expression adds: a literal that is not written inline, its value under a generated
name, and a named parameter that is new, the supplied value or else the one it brings. -/
def visit (mode : Mode) (supplied : Option Bindings) (reserved : List String) (p : Pass) :
    Expr → Pass
  | .literal v =>
    match mode with
    | .inline => p
    | .placeholder =>
      let n := nextOrdinal reserved p.generated
      ⟨p.generated ++ [n], p.entries ++ [(placeholderName n, v)]⟩
  | .parameter name embedded =>
    if name ∈ p.entries.map Prod.fst then p
    else
      match (supplied.bind (·.get? name)).or embedded with
      | none => p
      | some v => { p with entries := p.entries ++ [(name, v)] }
  | _ => p

/-- What expressions add one after the other. -/
def run (mode : Mode) (supplied : Option Bindings) (reserved : List String) (p : Pass)
    (es : List Expr) : Pass :=
  es.foldl (visit mode supplied reserved) p

end Pass

/-! ### A binder follows the pass -/

/-- The request that an expression makes to the binder. -/
def Expr.request? : Expr → Option Request
  | .literal v => some (.register v)
  | .parameter name embedded => some (.bind name embedded)
  | _ => none

/-- The binder has come as far as the pass: it has bound the same parameters and goes on from the
same ordinal. -/
structure Follows (mode : Mode) (supplied : Option Bindings) (reserved : List String) (b : Binder)
    (p : Pass) : Prop where
  mode_eq : b.mode = mode
  supplied_eq : b.supplied = supplied
  mem_reserved : ∀ s, s ∈ b.reserved ↔ s ∈ reserved
  next_le : ∀ n, b.next ≤ n ↔ 0 < n ∧ ∀ m ∈ p.generated, m < n
  entries_eq : b.bound.entries = p.entries
  /-- A bound name that could still be generated belongs to a named parameter. -/
  later_reserved : ∀ n, b.next ≤ n → placeholderName n ∈ b.bound.names →
    placeholderName n ∈ reserved

namespace Follows

variable {mode : Mode} {supplied : Option Bindings} {reserved : List String} {b : Binder}
  {p : Pass}

theorem names_eq (h : Follows mode supplied reserved b p) :
    b.bound.names = p.entries.map Prod.fst := by
  rw [Bindings.names, h.entries_eq]

/-- The bounded search ends at the least ordinal that may be generated next. -/
theorem freeOrdinal_eq (h : Follows mode supplied reserved b p) :
    b.freeOrdinal = Pass.nextOrdinal reserved p.generated := by
  -- the two look for the same ordinals
  have hfree : ∀ n, (b.next ≤ n ∧ placeholderName n ∉ b.reserved ++ b.bound.names)
      ↔ Pass.IsFree reserved p.generated n := by
    intro n
    rw [List.mem_append, not_or, h.mem_reserved, h.next_le, Pass.IsFree]
    constructor
    · rintro ⟨⟨hpos, hgt⟩, hres, -⟩
      exact ⟨hpos, hgt, hres⟩
    · rintro ⟨hpos, hgt, hres⟩
      -- a name that is bound and may still come is a named parameter's
      refine ⟨⟨hpos, hgt⟩, hres, fun hbound => hres ?_⟩
      exact h.later_reserved n ((h.next_le n).2 ⟨hpos, hgt⟩) hbound
  obtain ⟨hmem, hleast⟩ := b.isLeast_freeOrdinal
  refine Nat.le_antisymm ?_ ?_
  · exact hleast ((hfree _).2 (Nat.find_spec (Pass.exists_isFree reserved p.generated)))
  · exact Nat.find_min' _ ((hfree _).1 hmem)

theorem register (h : Follows mode supplied reserved b p) (v : Value) :
    Follows mode supplied reserved (b.handle (.register v)).2
      (p.visit mode supplied reserved (.literal v)) := by
  cases mode with
  | inline =>
    -- whether the value has a literal or not
    have hstays : (b.handle (.register v)).2 = b := by
      simp only [Binder.handle, Binder.register, h.mode_eq]
      rcases v.literal with cause | text <;> rfl
    rw [hstays]
    exact h
  | placeholder =>
    obtain ⟨⟨hle, hnew⟩, -⟩ := b.isLeast_freeOrdinal
    rw [List.mem_append, not_or] at hnew
    have hentries : (b.bound.set (placeholderName b.freeOrdinal) v).entries
        = b.bound.entries ++ [(placeholderName b.freeOrdinal, v)] :=
      Bindings.entries_set_of_notMem hnew.2
    have hhandle : (b.handle (.register v)).2 = { b with
        next := b.freeOrdinal + 1
        bound := b.bound.set (placeholderName b.freeOrdinal) v } := by
      simp only [Binder.handle, Binder.register, h.mode_eq]
    rw [hhandle, Pass.visit, ← h.freeOrdinal_eq]
    refine ⟨h.mode_eq, h.supplied_eq, h.mem_reserved, ?_, ?_, ?_⟩
    · intro n
      -- the new ordinal is the greatest of the generated ones
      have hpos := (h.next_le b.freeOrdinal).1 hle
      simp only [List.mem_append, List.mem_singleton]
      constructor
      · intro hn
        refine ⟨by omega, ?_⟩
        rintro m (hm | rfl)
        · exact Nat.lt_trans (hpos.2 m hm) hn
        · exact hn
      · rintro ⟨-, hgt⟩
        exact hgt _ (.inr rfl)
    · rw [hentries, h.entries_eq]
    · intro n hn hbound
      rw [Bindings.names_set, if_neg hnew.2, List.mem_append, List.mem_singleton] at hbound
      have hn : b.freeOrdinal < n := hn
      rcases hbound with hbound | hname
      · exact h.later_reserved n (by omega) hbound
      · have := placeholderName_injective hname
        omega

theorem bind (h : Follows mode supplied reserved b p) {name : String} (embedded : Option Value)
    (hname : name ∈ reserved) :
    Follows mode supplied reserved (b.handle (.bind name embedded)).2
      (p.visit mode supplied reserved (.parameter name embedded)) := by
  have hvalue : b.valueFor name embedded = (supplied.bind (·.get? name)).or embedded := by
    rw [Binder.valueFor, h.supplied_eq]
  simp only [Binder.handle, Binder.bind, Pass.visit, hvalue, ← h.names_eq]
  by_cases hold : name ∈ b.bound.names
  · -- the parameter stays as it was bound first
    rw [if_pos hold]
    cases (supplied.bind (·.get? name)).or embedded with
    | none => exact h
    | some v =>
      simp only [Bindings.contains_iff.2 hold, if_true]
      exact h
  · rw [if_neg hold]
    cases (supplied.bind (·.get? name)).or embedded with
    | none => exact h
    | some v =>
      have hcontains : ¬ b.bound.contains name = true := fun hc => hold (Bindings.contains_iff.1 hc)
      simp only [if_neg hcontains]
      refine ⟨h.mode_eq, h.supplied_eq, h.mem_reserved, h.next_le, ?_, ?_⟩
      · rw [Bindings.entries_set_of_notMem hold, h.entries_eq]
      · intro n hn hbound
        rw [Bindings.names_set, if_neg hold, List.mem_append, List.mem_singleton] at hbound
        rcases hbound with hbound | rfl
        · exact h.later_reserved n hn hbound
        · exact hname

/-- One expression: its request to the binder, if it makes one, and its visit. -/
theorem visit (h : Follows mode supplied reserved b p) (e : Expr)
    (hname : ∀ name embedded, e = .parameter name embedded → name ∈ reserved) :
    Follows mode supplied reserved (b.after e.request?.toList)
      (p.visit mode supplied reserved e) := by
  cases e with
  | literal v => exact h.register v
  | parameter name embedded => exact h.bind embedded (hname name embedded rfl)
  | _ => exact h

/-- A list of expressions one after the other. -/
theorem run (es : List Expr)
    (hnames : ∀ name embedded, .parameter name embedded ∈ es → name ∈ reserved)
    (h : Follows mode supplied reserved b p) :
    Follows mode supplied reserved (b.after (es.filterMap Expr.request?))
      (p.run mode supplied reserved es) := by
  induction es generalizing b p with
  | nil => exact h
  | cons e es ih =>
    have hstep := h.visit e fun name embedded he =>
      hnames name embedded (he ▸ List.mem_cons_self)
    have hrest := ih
      (fun name embedded he => hnames name embedded (List.mem_cons_of_mem _ he)) hstep
    have hafter : b.after ((e :: es).filterMap Expr.request?)
        = (b.after e.request?.toList).after (es.filterMap Expr.request?) := by
      cases hr : e.request? <;> simp [Binder.after, hr]
    rw [hafter]
    exact hrest

end Follows

/-! ### The names of literals -/

namespace Pass

/-- The literals that a pass binds: none if they are written inline. -/
def boundLiterals (mode : Mode) (es : List Expr) : List Value :=
  match mode with
  | .inline => []
  | .placeholder => es.filterMap Expr.literalValue?

/-- The pass has bound the values `vs` of literals, one by one under names of their own, and no
other parameters but named ones. -/
structure Sorted (reserved names : List String) (p : Pass) (vs : List Value) : Prop where
  length_eq : p.generated.length = vs.length
  increasing : p.generated.Pairwise (· < ·)
  free : ∀ n ∈ p.generated, placeholderName n ∉ reserved
  unnamed_eq : p.entries.filter (fun e => e.1 ∉ names)
    = (p.generated.map placeholderName).zip vs

variable {mode : Mode} {supplied : Option Bindings} {reserved names : List String}

theorem Sorted.visit {p : Pass} {vs : List Value} (h : p.Sorted reserved names vs) (e : Expr)
    (hreserved : names ⊆ reserved)
    (hname : ∀ name embedded, e = .parameter name embedded → name ∈ names) :
    (p.visit mode supplied reserved e).Sorted reserved names (vs ++ boundLiterals mode [e]) := by
  cases e with
  | literal v =>
    cases mode with
    | inline => simpa [boundLiterals, Pass.visit] using h
    | placeholder =>
      obtain ⟨-, hgt, hfree⟩ := Nat.find_spec (exists_isFree reserved p.generated)
      refine ⟨?_, ?_, ?_, ?_⟩
      · simp [Pass.visit, boundLiterals, Expr.literalValue?, h.length_eq]
      · rw [Pass.visit, List.pairwise_append]
        refine ⟨h.increasing, List.pairwise_singleton _ _, ?_⟩
        intro m hm n hn
        rw [List.mem_singleton.1 hn]
        exact hgt m hm
      · intro n hn
        rcases List.mem_append.1 hn with hn | hn
        · exact h.free n hn
        · rw [List.mem_singleton.1 hn]
          exact hfree
      · -- no named parameter has the new name, so the filter keeps it
        have hnew : placeholderName (nextOrdinal reserved p.generated) ∉ names :=
          fun hmem => hfree (hreserved hmem)
        simp only [Pass.visit, List.filter_append, h.unnamed_eq, List.map_append]
        rw [List.zip_append (by simp [h.length_eq])]
        simp [boundLiterals, Expr.literalValue?, hnew]
  | parameter name embedded =>
    have hbound : boundLiterals mode [.parameter name embedded] = [] := by cases mode <;> rfl
    rw [hbound, List.append_nil, Pass.visit]
    split
    · exact h
    · split
      · exact h
      · refine ⟨h.length_eq, h.increasing, h.free, ?_⟩
        rw [List.filter_append, h.unnamed_eq]
        simp [hname name embedded rfl]
  | _ =>
    cases mode <;>
      simpa [Pass.visit, boundLiterals, Expr.literalValue?, List.filterMap_cons] using h

theorem boundLiterals_cons (mode : Mode) (e : Expr) (es : List Expr) :
    boundLiterals mode (e :: es) = boundLiterals mode [e] ++ boundLiterals mode es := by
  cases mode with
  | inline => rfl
  | placeholder =>
    simp only [boundLiterals, ← List.filterMap_append, List.singleton_append]

/-- A pass binds the literals it comes to, in order, each under a name of its own that is not
reserved. -/
theorem sorted_run (es : List Expr) (hreserved : names ⊆ reserved)
    (hnames : ∀ name embedded, .parameter name embedded ∈ es → name ∈ names) {p : Pass}
    {vs : List Value} (h : p.Sorted reserved names vs) :
    (p.run mode supplied reserved es).Sorted reserved names (vs ++ boundLiterals mode es) := by
  induction es generalizing p vs with
  | nil => cases mode <;> simpa [boundLiterals, run] using h
  | cons e es ih =>
    have hstep : (p.visit mode supplied reserved e).Sorted reserved names
        (vs ++ boundLiterals mode [e]) :=
      h.visit e hreserved fun name embedded he => hnames name embedded (he ▸ List.mem_cons_self)
    rw [boundLiterals_cons, ← List.append_assoc]
    exact ih (fun name embedded he => hnames name embedded (List.mem_cons_of_mem _ he)) hstep

end Pass
end PersistenceQuery
