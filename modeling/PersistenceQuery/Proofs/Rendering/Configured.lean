import Mathlib.Data.List.Nodup
import PersistenceQuery.Proofs.Exchange.Sorted
import PersistenceQuery.Proofs.Rendering.Keywords
import PersistenceQuery.Proofs.Rendering.Refusals

/-!
# The dialect of settings

Settings are taken into the standard dialect entry by entry, in the order of the kinds, up to the
first entry that cannot be.  As the kinds of the entries are distinct, none of them undoes another,
and it does not matter in which order they were set.

## Main definitions

* `Settings.IsAccepted` — the entries that can be taken into a dialect.
* `Settings.refusal` — what is wrong with the others.

## Main results

* `Dialect.kinds_eq_of_perm` — the kinds that have a rule are listed in one order only.
* `Settings.foldlM_configure_eq_error_iff` — the first entry that is not accepted is the fault.
* `Settings.dialect_outcome` — when settings are accepted, the rules they give, and what they are
  refused for.
-/

namespace PersistenceQuery

open Text

/-! ### The kinds that have a rule -/

namespace Dialect

variable {D E : Dialect}

/-- The kinds are listed in their own order. -/
theorem kinds_eq_of_perm (h : (D.entries.map Prod.fst).Perm (E.entries.map Prod.fst)) :
    D.kinds = E.kinds := by
  have hsorted : ∀ kinds : List String,
      (kinds.mergeSort fun a b => decide (a ≤ b)).Pairwise fun a b => decide (a ≤ b) = true := by
    refine List.pairwise_mergeSort (fun a b c hab hbc => ?_) (fun a b => ?_)
    · exact decide_eq_true (String.le_trans (of_decide_eq_true hab) (of_decide_eq_true hbc))
    · rw [Bool.or_eq_true, decide_eq_true_iff, decide_eq_true_iff]
      exact String.le_total a b
  refine List.Perm.eq_of_pairwise (fun a b _ _ hab hba => ?_) (hsorted _) (hsorted _)
    ((List.mergeSort_perm _ _).trans (h.trans (List.mergeSort_perm _ _).symm))
  exact String.le_antisymm (of_decide_eq_true hab) (of_decide_eq_true hba)

/-- A rule that is registered in place of another leaves the kinds as they are. -/
theorem keys_register_perm {kind : String} (hnodup : (D.entries.map Prod.fst).Nodup)
    (h : kind ∈ D.entries.map Prod.fst) (r : Rule) :
    ((D.register kind r).entries.map Prod.fst).Perm (D.entries.map Prod.fst) := by
  have hkeys : (D.register kind r).entries.map Prod.fst
      = kind :: (D.entries.map Prod.fst).erase kind := by
    rw [hnodup.erase_eq_filter, List.filter_map]
    rfl
  rw [hkeys]
  exact (List.perm_cons_erase h).symm

/-- A call is written with the keyword of the rule kept for its kind, and with what is directly
inside it as its arguments. -/
theorem write_of_call {kind w : String} (hrule : D.rule? kind = some (.call kind w)) {e : Expr}
    (h : e.form = .call kind) :
    D.write (.expr e) = Emission.call w (e.children.map fun a => D.write (.expr a)) := by
  have hkind : (Part.expr e).kind = kind := by rw [Part.kind, Part.form, h, Form.kind]
  have hfits : (Rule.call kind w).fits (.expr e) = true := by
    rw [Rule.fits, Rule.form, Part.form, h]
    exact beq_self_eq_true _
  have hwrite : D.write (.expr e) = e.layout D w := by
    rw [write, accept, hkind, hrule]
    show (Rule.call kind w).accept (.expr e) _ = _
    rw [Rule.accept, if_pos hfits]
    rfl
  rw [hwrite]
  cases e with
  | unary f v | current m | nullIf l r => rfl
  | variadic f es | custom k es => rw [Expr.layout, layoutsOfList_eq_map]; rfl
  | substring v start length => cases length <;> rfl
  | _ => cases h

end Dialect

/-- An expression with the kind of a built-in call is a call. -/
theorem Expr.form_of_kind {e : Expr} (h : e.kind ∈ callKeywords.map Prod.fst) :
    e.form = .call e.kind := by
  rw [Expr.kind] at h ⊢
  cases hform : e.form with
  | construct c =>
    rw [hform] at h
    exact absurd h c.kind_notMem_callKeywords
  | call kind => rfl

/-! ### Entry by entry -/

namespace Settings

variable {D D' : Dialect} {e : String × String} {entries : List (String × String)}

/-- The entry is for a built-in call, and its keyword is more than blanks. -/
def IsAccepted (e : String × String) : Prop :=
  e.1 ∈ callKeywords.map Prod.fst ∧ ∃ c ∈ e.2.toList, isBlank c = false

/-- What is wrong with an entry that is not accepted; of two things the kind counts. -/
def refusal (e : String × String) : SettingsFault :=
  if e.1 ∈ callKeywords.map Prod.fst then .blankKeyword e.1 else .unknownFunction e.1

theorem isBlankText_eq_false_iff {s : String} :
    isBlankText s = false ↔ ∃ c ∈ s.toList, isBlank c = false := by
  simp [isBlankText]

instance (e : String × String) : Decidable (IsAccepted e) :=
  decidable_of_iff (e.1 ∈ callKeywords.map Prod.fst ∧ isBlankText e.2 = false)
    (and_congr_right fun _ => isBlankText_eq_false_iff)

theorem configure_of_isAccepted (D : Dialect) (h : IsAccepted e) :
    configure D e = .ok (D.insert (.call e.1 e.2)) := by
  simp [configure, h.1, isBlankText_eq_false_iff.2 h.2]

theorem configure_of_not_isAccepted (D : Dialect) (h : ¬ IsAccepted e) :
    configure D e = .error (.settings (refusal e)) := by
  rw [configure, refusal]
  by_cases hkind : e.1 ∈ callKeywords.map Prod.fst
  · have hblank : isBlankText e.2 = true := by
      rw [← Bool.not_eq_false, isBlankText_eq_false_iff]
      exact fun hkeyword => h ⟨hkind, hkeyword⟩
    simp [hkind, hblank]
  · simp [hkind]

/-- The entries in front of the first one that is not accepted do not show in the fault. -/
theorem foldlM_configure_eq_error_iff {fault : Fault} :
    entries.foldlM configure D = .error fault
      ↔ ∃ before e behind, entries = before ++ e :: behind ∧ (∀ x ∈ before, IsAccepted x)
        ∧ ¬ IsAccepted e ∧ fault = .settings (refusal e) := by
  induction entries generalizing D with
  | nil => exact iff_of_false nofun (by simp)
  | cons a entries ih =>
    rw [List.foldlM_cons]
    by_cases ha : IsAccepted a
    · rw [configure_of_isAccepted D ha]
      refine ih.trans ⟨?_, ?_⟩
      · rintro ⟨before, e, behind, rfl, hbefore, he⟩
        exact ⟨a :: before, e, behind, rfl, List.forall_mem_cons.2 ⟨ha, hbefore⟩, he⟩
      · rintro ⟨before, e, behind, heq, hbefore, he, hfault⟩
        cases before with
        | nil =>
          obtain ⟨rfl, -⟩ := List.cons.inj heq
          exact absurd ha he
        | cons x before =>
          obtain ⟨-, rfl⟩ := List.cons.inj heq
          exact ⟨before, e, behind, rfl, (List.forall_mem_cons.1 hbefore).2, he, hfault⟩
    · rw [configure_of_not_isAccepted D ha]
      constructor
      · rintro ⟨⟩
        exact ⟨[], a, entries, rfl, List.forall_mem_nil _, ha, rfl⟩
      · rintro ⟨before, e, behind, heq, hbefore, he, rfl⟩
        cases before with
        | nil =>
          obtain ⟨rfl, -⟩ := List.cons.inj heq
          rfl
        | cons x before =>
          obtain ⟨rfl, -⟩ := List.cons.inj heq
          exact absurd (hbefore _ List.mem_cons_self) ha

/-- A fold over entries succeeds if all of them are accepted. -/
theorem exists_foldlM_configure_iff :
    (∃ D', entries.foldlM configure D = .ok D') ↔ ∀ e ∈ entries, IsAccepted e := by
  induction entries generalizing D with
  | nil => exact iff_of_true ⟨D, rfl⟩ (List.forall_mem_nil _)
  | cons a entries ih =>
    rw [List.foldlM_cons, List.forall_mem_cons]
    by_cases ha : IsAccepted a
    · rw [configure_of_isAccepted D ha, and_iff_right ha]
      exact ih
    · rw [configure_of_not_isAccepted D ha]
      exact iff_of_false nofun fun h => ha h.1

/-- Entries for kinds that have a rule leave the kinds as they are. -/
theorem keys_foldlM_configure (hnodup : (D.entries.map Prod.fst).Nodup)
    (hcalls : callKeywords.map Prod.fst ⊆ D.entries.map Prod.fst)
    (h : entries.foldlM configure D = .ok D') :
    (D'.entries.map Prod.fst).Perm (D.entries.map Prod.fst) := by
  induction entries generalizing D with
  | nil =>
    obtain rfl := Except.ok.inj h
    exact .refl _
  | cons a entries ih =>
    rw [List.foldlM_cons] at h
    rcases hc : configure D a with fault | D₁
    · rw [hc] at h
      cases h
    · rw [hc] at h
      obtain ⟨hmem, rfl⟩ := configure_eq_ok hc
      have hperm := D.keys_register_perm hnodup (hcalls hmem) (.call a.1 a.2)
      exact (ih (hperm.nodup_iff.2 hnodup) (fun k hk => hperm.mem_iff.2 (hcalls hk)) h).trans hperm

/-! ### All entries -/

theorem kinds_of_dialect {s : Settings} (h : s.dialect = .ok D) :
    D.kinds = Dialect.standard.kinds :=
  Dialect.kinds_eq_of_perm (keys_foldlM_configure (by decide +kernel) (by decide +kernel) h)

/-- However keywords are set, the entries come in the order of the kinds. -/
theorem ascends_setFunctions {s : Settings} (h : Sorted.Ascends s.functions)
    (functions : List (String × String)) : Sorted.Ascends (s.setFunctions functions).functions := by
  induction functions generalizing s with
  | nil => exact h
  | cons e functions ih => exact ih (Sorted.ascends_set h e.1 e.2)

theorem keywordFor?_eq_some_iff {s : Settings} (h : Sorted.Ascends s.functions) {kind w : String} :
    s.keywordFor? kind = some w ↔ (kind, w) ∈ s.functions := by
  have hnodup : (s.functions.reverse.map Prod.fst).Nodup := by
    rw [List.map_reverse, List.nodup_reverse]
    exact h.nodup
  rw [keywordFor?, Keyed.lookup_eq_some_iff hnodup, List.mem_reverse]

/-- Settings with their entries in the order of the kinds, as setting keywords leaves them, are
accepted if every kind is that of a built-in call and every keyword is more than blanks.  Then the
same kinds have a rule as in the standard dialect: for a kind that is set it is the rule for calls
with the keyword that is set, which stands in front of the arguments of every call of that kind, and
the other kinds keep theirs.  Otherwise the fault is about the entry with the least kind of those
that are not accepted, and about its kind if that is not one of a built-in call, whatever the
keyword is. -/
theorem dialect_outcome {s : Settings} (h : Sorted.Ascends s.functions) :
    ((∃ D, s.dialect = .ok D) ↔ ∀ e ∈ s.functions, IsAccepted e)
      ∧ (∀ D, s.dialect = .ok D →
        D.kinds = Dialect.standard.kinds
          ∧ (∀ kind w, (kind, w) ∈ s.functions → D.rule? kind = some (.call kind w)
            ∧ ∀ e : Expr, e.kind = kind →
              D.write (.expr e) = Emission.call w (e.children.map fun a => D.write (.expr a)))
          ∧ ∀ kind, kind ∉ s.functions.map Prod.fst →
            D.rule? kind = Dialect.standard.rule? kind)
      ∧ ∀ fault, s.dialect = .error fault ↔ ∃ e ∈ s.functions, ¬ IsAccepted e
        ∧ (∀ e' ∈ s.functions, ¬ IsAccepted e' → e.1 ≤ e'.1) ∧ fault = .settings (refusal e) := by
  refine ⟨exists_foldlM_configure_iff, fun D hD => ⟨kinds_of_dialect hD, ?_, ?_⟩, fun fault => ?_⟩
  · intro kind w hmem
    have hkeyword := (keywordFor?_eq_some_iff h).2 hmem
    have hrule := rule?_of_dialect hD kind
    rw [hkeyword] at hrule
    refine ⟨hrule, ?_⟩
    rintro e rfl
    exact D.write_of_call hrule (e.form_of_kind (mem_callKeywords_of_keywordFor? hD hkeyword).2)
  · intro kind hkind
    rw [rule?_of_dialect hD]
    cases hkeyword : s.keywordFor? kind with
    | none => rfl
    | some w => exact absurd (List.mem_map_of_mem ((keywordFor?_eq_some_iff h).1 hkeyword)) hkind
  · rw [dialect, foldlM_configure_eq_error_iff]
    constructor
    · rintro ⟨before, e, behind, hfunctions, hbefore, he, hfault⟩
      refine ⟨e, hfunctions ▸ List.mem_append_right _ List.mem_cons_self, he, ?_, hfault⟩
      -- what is not accepted is the entry itself or stands behind it
      intro e' he' hrefused
      rw [hfunctions] at h he'
      rcases List.mem_append.1 he' with he' | he'
      · exact absurd (hbefore e' he') hrefused
      · rcases List.mem_cons.1 he' with rfl | he'
        · exact String.le_refl _
        · have hlt := (List.pairwise_cons.1 (List.pairwise_append.1 h).2.1).1 e' he'
          exact String.not_lt.1 fun hgt => String.lt_irrefl _ (String.lt_trans hlt hgt)
    · rintro ⟨e, hmem, he, hleast, hfault⟩
      obtain ⟨before, behind, hfunctions⟩ := List.append_of_mem hmem
      refine ⟨before, e, behind, hfunctions, fun x hx => ?_, he, hfault⟩
      -- an entry in front has a lesser kind
      rw [hfunctions] at h hleast
      have hlt := (List.pairwise_append.1 h).2.2 x hx e List.mem_cons_self
      by_contra hrefused
      exact String.not_lt.2 (hleast x (List.mem_append_left _ hx) hrefused) hlt

/-- Keywords that are set in another order than that of their kinds: one of them twice, and then
two that cannot be. -/
theorem dialect_outcome_upper :
    let s := initial.setFunctions [("upper", "UCASE"), ("size", "CARD"), ("upper", "MAJ")]
    let t := s.setFunctions [("upper", "\t"), ("soundex", " ")]
    (∃ D, s.dialect = .ok D ∧ D.rule? "upper" = some (.call "upper" "MAJ")
        ∧ D.rule? "size" = some (.call "size" "CARD")
        ∧ D.rule? "lower" = Dialect.standard.rule? "lower")
      ∧ t.dialect = .error (.settings (.unknownFunction "soundex")) := by
  intro s t
  have hinitial : Sorted.Ascends initial.functions := List.Pairwise.nil
  have hs : Sorted.Ascends s.functions := ascends_setFunctions hinitial _
  have ht : Sorted.Ascends t.functions := ascends_setFunctions hs _
  have hfunctions : s.functions = [("size", "CARD"), ("upper", "MAJ")] := by decide +kernel
  have hfunctions' : t.functions = [("size", "CARD"), ("soundex", " "), ("upper", "\t")] := by
    decide +kernel
  obtain ⟨haccepted, hrules, -⟩ := dialect_outcome hs
  obtain ⟨D, hD⟩ := haccepted.2 (by rw [hfunctions]; decide)
  obtain ⟨-, hset, hkept⟩ := hrules D hD
  rw [hfunctions] at hset hkept
  refine ⟨⟨D, hD, (hset _ _ (by decide)).1, (hset _ _ (by decide)).1, hkept _ (by decide)⟩, ?_⟩
  refine ((dialect_outcome ht).2.2 _).2 ⟨("soundex", " "), ?_, ?_, ?_, rfl⟩
  · rw [hfunctions']
    decide
  · decide
  · rw [hfunctions']
    intro e' he' hrefused
    simp only [List.mem_cons, List.not_mem_nil, or_false] at he'
    rcases he' with rfl | rfl | rfl
    · exact absurd (by decide) hrefused
    · exact String.le_refl _
    · decide

end Settings
end PersistenceQuery
