import Mathlib.Data.List.Basic
import PersistenceQuery.Proofs.Rendering.Outcome
import PersistenceQuery.Proofs.Text.Trimmed
import PersistenceQuery.Rendering.Script

/-!
# Runs of scripts

What any script leaves of the draft it runs on, whether its instructions fail or not.  The text
only grows; and the parentheses that stay open are those whose inside has failed, one for each
block that was entered, so that a draft is finished only if none has.

## Main definitions

* `Extends` — a text that begins with another one.
* `Instruction.isElementary` — the instruction writes no expressions.
* `Instruction.endings`, `endingsAtTop` — how the blocks between parentheses end that are carried
  out.
* `Progress.Grows`, `Progress.Settles` — what an instruction leaves of the text, and of the
  parentheses.

## Main results

* `Instruction.settles` — one instruction, with all that it holds.
* `performAll_settles` — a whole script: its reports, its open parentheses, and how it finishes.
-/

namespace PersistenceQuery

open Text

/-- The second text begins with the first one. -/
def Extends (s t : String) : Prop := ∃ more, t = s ++ more

theorem Extends.refl (s : String) : Extends s s := ⟨"", (String.append_empty).symm⟩

theorem Extends.trans {s t u : String} (h : Extends s t) (h' : Extends t u) : Extends s u := by
  obtain ⟨more, rfl⟩ := h
  obtain ⟨more', rfl⟩ := h'
  exact ⟨more ++ more', String.append_assoc⟩

/-! ### Single emissions -/

namespace Draft

theorem extends_write (d : Draft) (token : String) : Extends d.text (d.write token).text :=
  d.exists_text_write token

@[simp] theorem text_space (d : Draft) : d.space.text = d.text := by
  rw [space]
  split <;> rfl

@[simp] theorem unclosed_space (d : Draft) : d.space.unclosed = d.unclosed := by
  rw [space]
  split <;> rfl

/-- Emissions only add to the text, also if they fail. -/
theorem extends_emitAll (d : Draft) (es : List Emission) :
    Extends d.text (d.emitAll es).1.text :=
  d.exists_text_emitAll es

/-- Only parentheses count. -/
theorem unclosed_emit (d : Draft) {e : Emission} (hopening : e ≠ .opening)
    (hclosing : e ≠ .closing) : (d.emit e).1.unclosed = d.unclosed := by
  have hbound : ∀ answer, (d.bound answer).1.unclosed = d.unclosed := by
    rintro (fault | answer) <;> rfl
  cases e with
  | opening => exact absurd rfl hopening
  | closing => exact absurd rfl hclosing
  | space => exact d.unclosed_space
  | value v => exact hbound _
  | parameter name embedded => exact hbound _
  | _ => rfl

theorem unclosed_emitAll (d : Draft) {es : List Emission}
    (h : ∀ e ∈ es, e ≠ .opening ∧ e ≠ .closing) : (d.emitAll es).1.unclosed = d.unclosed := by
  refine emitAll_keeps (I := fun d' => d'.unclosed = d.unclosed) (fun e he d' hd' => ?_) rfl
  exact (d'.unclosed_emit (h e he).1 (h e he).2).trans hd'

end Draft

/-! ### Blocks -/

mutual

/-- The instruction works on the draft itself and writes no expression. -/
def Instruction.isElementary : Instruction → Bool
  | .parentheses body => areElementary body
  | .separated items _ => itemsAreElementary items
  | .write _ | .space | .keyword _ | .value _ | .parameter _ _ => true
  | .expression _ | .operand _ _ _ | .arguments _ => false

def areElementary : List Instruction → Bool
  | [] => true
  | i :: is => i.isElementary && areElementary is

def itemsAreElementary : List (List Instruction) → Bool
  | [] => true
  | item :: items => areElementary item && itemsAreElementary items

end

mutual

/-- How the blocks between parentheses end that an instruction carries out: with the fault that
stopped what stands in them, if one did.  An inner block comes before the one around it. -/
def Instruction.endings (D : Dialect) : Instruction → Draft → List (Option Fault)
  | .parentheses body, d =>
    endingsOfAll D body (d.emit .opening).1 ++ [(runAll D body (d.emit .opening).1).fault]
  | .separated items separator, d => endingsOfItems D items separator true d
  | _, _ => []

/-- The blocks of a script inside an instruction, up to the instruction that fails. -/
def endingsOfAll (D : Dialect) : List Instruction → Draft → List (Option Fault)
  | [], _ => []
  | i :: is, d =>
    i.endings D d
      ++ if (i.run D d).fault.isSome then [] else endingsOfAll D is (i.run D d).draft

/-- The blocks of scripts with separators between them. -/
def endingsOfItems (D : Dialect) :
    List (List Instruction) → String → Bool → Draft → List (Option Fault)
  | [], _, _, _ => []
  | item :: items, separator, isFirst, d =>
    let d := if isFirst then d else d.write separator
    endingsOfAll D item d
      ++ if (runAll D item d).fault.isSome then []
        else endingsOfItems D items separator false (runAll D item d).draft

end

/-- The blocks of a script at the top, where an instruction is carried out also behind one that
fails. -/
def endingsAtTop (D : Dialect) : List Instruction → Draft → List (Option Fault)
  | [], _ => []
  | i :: is, d => i.endings D d ++ endingsAtTop D is (i.run D d).draft

/-- The number of blocks that end with a fault. -/
def failures (endings : List (Option Fault)) : Nat := endings.countP Option.isSome

@[simp] theorem failures_nil : failures [] = 0 := rfl

@[simp] theorem failures_append (as bs : List (Option Fault)) :
    failures (as ++ bs) = failures as + failures bs := List.countP_append

theorem failures_eq_zero {endings : List (Option Fault)} :
    failures endings = 0 ↔ ∀ ending ∈ endings, ending = none := by
  simp only [failures, List.countP_eq_zero, Option.not_isSome_iff_eq_none]

/-! ### Progress -/

namespace Progress

/-- From the draft in front of it the text only grows: every report shows an extension of the
texts in front of it, and so does the draft that is left. -/
structure Grows (d : Draft) (p : Progress) : Prop where
  reports : (p.reports.map Report.text).Pairwise Extends
  first : ∀ r ∈ p.reports, Extends d.text r.text
  last : ∀ r ∈ p.reports, Extends r.text p.draft.text
  text : Extends d.text p.draft.text

/-- The parentheses that are left open are those of the blocks that fail, and a block that fails
makes the instruction around it fail. -/
structure Settles (d : Draft) (p : Progress) (endings : List (Option Fault)) : Prop where
  grows : p.Grows d
  unclosed : p.draft.unclosed = d.unclosed + failures endings
  clean : p.fault = none → failures endings = 0

variable {d : Draft} {p p' : Progress} {next : Draft → Progress}
  {endings endings' : List (Option Fault)}

theorem Grows.append (h : p.Grows d) (h' : p'.Grows p.draft) (fault : Option Fault) :
    Grows d ⟨p'.draft, fault, p.reports ++ p'.reports⟩ := by
  refine ⟨?_, ?_, ?_, h.text.trans h'.text⟩
  · rw [List.map_append, List.pairwise_append]
    refine ⟨h.reports, h'.reports, ?_⟩
    rintro _ hs _ ht
    obtain ⟨r, hr, rfl⟩ := List.mem_map.1 hs
    obtain ⟨r', hr', rfl⟩ := List.mem_map.1 ht
    exact (h.last r hr).trans (h'.first r' hr')
  · exact List.forall_mem_append.2 ⟨h.first, fun r hr => h.text.trans (h'.first r hr)⟩
  · exact List.forall_mem_append.2 ⟨fun r hr => (h.last r hr).trans h'.text, h'.last⟩

theorem Grows.andThen (h : p.Grows d) (h' : p.fault = none → (next p.draft).Grows p.draft) :
    (p.andThen next).Grows d := by
  rw [Progress.andThen]
  split
  · exact h
  · next hfault => exact h.append (h' hfault) _

theorem Grows.of_extends {d' : Draft} (h : p.Grows d') (htext : Extends d.text d'.text) :
    p.Grows d :=
  ⟨h.reports, fun r hr => htext.trans (h.first r hr), h.last, htext.trans h.text⟩

/-- A progress without reports. -/
theorem grows_of_text {d' : Draft} (h : Extends d.text d'.text) (fault : Option Fault) :
    Grows d ⟨d', fault, []⟩ :=
  ⟨List.Pairwise.nil, List.forall_mem_nil _, List.forall_mem_nil _, h⟩

theorem grows_ofEmissions (es : List Emission) (d : Draft) : (ofEmissions es d).Grows d :=
  grows_of_text (d.extends_emitAll es) _

/-- A report shows the draft as it is. -/
theorem Grows.report (h : p.Grows d) : p.report.Grows d := by
  have hlast : Grows p.draft ⟨p.draft, p.fault, [⟨p.fault, p.draft.text⟩]⟩ :=
    ⟨List.pairwise_singleton _ _, List.forall_mem_singleton.2 (.refl _),
      List.forall_mem_singleton.2 (.refl _), .refl _⟩
  exact h.append hlast p.fault

theorem Settles.report (h : p.Settles d endings) : p.report.Settles d endings :=
  ⟨h.grows.report, h.unclosed, h.clean⟩

theorem Settles.andThen (h : p.Settles d endings)
    (h' : p.fault = none → (next p.draft).Settles p.draft endings') :
    (p.andThen next).Settles d (endings ++ if p.fault.isSome then [] else endings') := by
  refine ⟨h.grows.andThen fun hfault => (h' hfault).grows, ?_, ?_⟩ <;> rw [Progress.andThen]
  · split
    · next hfault => simpa [hfault] using h.unclosed
    · next hfault =>
      rw [(h' hfault).unclosed, h.unclosed]
      simp [hfault, Nat.add_assoc]
  · split
    · next hfault => exact fun hnone => nomatch hfault.symm.trans hnone
    · next hfault =>
      intro hnone
      simp [hfault, h.clean hfault, (h' hfault).clean hnone]

/-- A token in front settles nothing. -/
theorem Settles.of_write {token : String} (h : p.Settles (d.write token) endings) :
    p.Settles d endings :=
  ⟨h.grows.of_extends (d.extends_write token), h.unclosed, h.clean⟩

/-- Emissions without parentheses. -/
theorem settles_ofEmissions {es : List Emission} (h : ∀ e ∈ es, e ≠ .opening ∧ e ≠ .closing)
    (d : Draft) : (ofEmissions es d).Settles d [] :=
  ⟨grows_ofEmissions es d, d.unclosed_emitAll h, fun _ => rfl⟩

/-- A block: the parenthesis stays open if and only if what stands in it fails. -/
theorem Settles.parentheses (h : p.Settles (d.emit .opening).1 endings) :
    ((ofEmissions [.opening] d).andThen fun _ =>
      p.andThen (ofEmissions [.closing])).Settles d (endings ++ [p.fault]) := by
  have hunclosed : p.draft.unclosed = d.unclosed + 1 + failures endings := h.unclosed
  refine ⟨?_, ?_, ?_⟩
  · exact (grows_ofEmissions [.opening] d).andThen fun _ =>
      h.grows.andThen fun _ => grows_ofEmissions [.closing] p.draft
  · show (p.andThen (ofEmissions [.closing])).draft.unclosed = _
    rw [failures_append, Progress.andThen]
    split
    · next fault hfault =>
      rw [hunclosed, hfault]
      show _ = d.unclosed + (failures endings + 1)
      omega
    · next hfault =>
      show p.draft.unclosed - 1 = _
      rw [hunclosed, h.clean hfault, hfault]
      rfl
  · intro hnone
    have hfault : p.fault = none := by
      cases hp : p.fault with
      | none => rfl
      | some fault =>
        have hstop : (p.andThen (ofEmissions [.closing])).fault = none := hnone
        rw [Progress.andThen, hp] at hstop
        exact hp ▸ hstop
    rw [failures_append, h.clean hfault, hfault]
    rfl

end Progress

/-! ### Instructions -/

open Progress

mutual

/-- An instruction only adds to the text, and leaves those parentheses open whose inside fails. -/
theorem Instruction.settles (D : Dialect) : ∀ (i : Instruction) (d : Draft),
    i.isElementary = true → (i.run D d).Settles d (i.endings D d)
  | .write t, d, _ => (settles_ofEmissions (by simp) d).report
  | .space, d, _ => (settles_ofEmissions (by simp) d).report
  | .keyword w, d, _ => (settles_ofEmissions (by simp [Emission.keyword]) d).report
  | .value v, d, _ => (settles_ofEmissions (by simp) d).report
  | .parameter s v, d, _ => (settles_ofEmissions (by simp) d).report
  | .parentheses body, d, h => (settles_runAll D body (d.emit .opening).1 h).parentheses.report
  | .separated items separator, d, h => (settles_runItems D items separator true d h).report

theorem settles_runAll (D : Dialect) : ∀ (is : List Instruction) (d : Draft),
    areElementary is = true → (runAll D is d).Settles d (endingsOfAll D is d)
  | [], d, _ => ⟨grows_of_text (.refl _) none, rfl, fun _ => rfl⟩
  | i :: is, d, h => by
    rw [areElementary, Bool.and_eq_true] at h
    exact (i.settles D d h.1).andThen fun _ => settles_runAll D is _ h.2

theorem settles_runItems (D : Dialect) :
    ∀ (items : List (List Instruction)) (separator : String) (isFirst : Bool) (d : Draft),
    itemsAreElementary items = true →
    (runItems D items separator isFirst d).Settles d (endingsOfItems D items separator isFirst d)
  | [], _, _, d, _ => ⟨grows_of_text (.refl _) none, rfl, fun _ => rfl⟩
  | item :: items, separator, isFirst, d, h => by
    rw [itemsAreElementary, Bool.and_eq_true] at h
    have hitems := (settles_runAll D item (if isFirst then d else d.write separator) h.1).andThen
      fun _ => settles_runItems D items separator false _ h.2
    rw [runItems, endingsOfItems]
    cases isFirst with
    | true => exact hitems
    | false => exact hitems.of_write

end

/-! ### Scripts at the top -/

theorem areElementary_append (as bs : List Instruction) :
    areElementary (as ++ bs) = (areElementary as && areElementary bs) := by
  induction as with
  | nil => rfl
  | cons a as ih => rw [List.cons_append, areElementary, areElementary, ih, Bool.and_assoc]

/-- A script at the top goes on behind its first part, whether that failed or not. -/
theorem performAll_append (D : Dialect) (as bs : List Instruction) (d : Draft) :
    (performAll D (as ++ bs) d).1 = (performAll D bs (performAll D as d).1).1 := by
  induction as generalizing d with
  | nil => rfl
  | cons a as ih => exact ih (a.run D d).draft

/-- The text only grows, over all the instructions of a script at the top. -/
theorem grows_performAll (D : Dialect) {is : List Instruction} (h : areElementary is = true)
    (d : Draft) : Grows d ⟨(performAll D is d).1, none, (performAll D is d).2⟩ := by
  induction is generalizing d with
  | nil => exact grows_of_text (.refl _) none
  | cons i is ih =>
    rw [areElementary, Bool.and_eq_true] at h
    exact (i.settles D d h.1).grows.append (ih h.2 (i.run D d).draft) none

/-- At the top the open parentheses add up. -/
theorem unclosed_performAll (D : Dialect) {is : List Instruction} (h : areElementary is = true)
    (d : Draft) :
    (performAll D is d).1.unclosed = d.unclosed + failures (endingsAtTop D is d) := by
  induction is generalizing d with
  | nil => rfl
  | cons i is ih =>
    rw [areElementary, Bool.and_eq_true] at h
    rw [endingsAtTop, failures_append, ← Nat.add_assoc, ← (i.settles D d h.1).unclosed]
    exact ih h.2 (i.run D d).draft

/-- A parenthesis that is open stays open at the top. -/
theorem unclosed_performAll_le (D : Dialect) {as bs : List Instruction}
    (h : areElementary (as ++ bs) = true) (d : Draft) :
    (performAll D as d).1.unclosed ≤ (performAll D (as ++ bs) d).1.unclosed := by
  rw [areElementary_append, Bool.and_eq_true] at h
  rw [performAll_append, unclosed_performAll D h.2]
  exact Nat.le_add_right _ _

/-! ### The finished text -/

namespace Draft

/-- A draft is finished if no parenthesis is open and it holds more than blanks. -/
theorem exists_finish_iff {d : Draft} :
    (∃ text bindings, d.finish = .ok (text, bindings))
      ↔ d.unclosed = 0 ∧ ∃ c ∈ d.text.toList, isBlank c = false := by
  simp only [finish_eq_ok, ← trim_ne_nil_iff]
  constructor
  · rintro ⟨text, bindings, hunclosed, htrim, -, -⟩
    exact ⟨hunclosed, htrim⟩
  · rintro ⟨hunclosed, htrim⟩
    exact ⟨_, _, hunclosed, htrim, rfl, rfl⟩

/-- Only open parentheses are counted in the fault of a draft that is not finished. -/
theorem finish_eq_error {d : Draft} {fault : Fault} (h : d.finish = .error fault) :
    fault = .incomplete (if d.unclosed = 0 then .blank else .unclosed d.unclosed) := by
  rw [finish] at h
  split at h
  · next hopen =>
    cases h
    rw [if_neg hopen]
  · next hopen =>
    rw [if_pos (not_not.1 hopen)]
    split at h <;> cases h
    rfl

end Draft

/-- A script at the top, run on an empty draft, with blocks at any depth that may fail.  Every
text that can be seen on the way begins with the ones in front of it.  The open parentheses are
those of the blocks that failed, and never become fewer.  The draft is finished if no block failed
and it holds more than blanks; otherwise the fault tells the number of the blocks that failed. -/
theorem performAll_settles (D : Dialect) (b : Binder) (is : List Instruction)
    (h : areElementary is = true) :
    let d := (performAll D is (Draft.start b)).1
    let reports := (performAll D is (Draft.start b)).2
    let failed := failures (endingsAtTop D is (Draft.start b))
    (reports.map Report.text ++ [d.text]).Pairwise Extends
      ∧ d.unclosed = failed
      ∧ (∀ before, before <+: is → (performAll D before (Draft.start b)).1.unclosed ≤ d.unclosed)
      ∧ ((∃ text bindings, d.finish = .ok (text, bindings))
          ↔ (∀ ending ∈ endingsAtTop D is (Draft.start b), ending = none)
            ∧ ∃ c ∈ d.text.toList, isBlank c = false)
      ∧ ∀ fault, d.finish = .error fault →
          fault.message = "Incomplete output: " ++
            if failed = 0 then "nothing was written"
            else toString failed ++ " unclosed parenthes" ++ if failed = 1 then "is" else "es" := by
  intro d reports failed
  have hgrows : Grows (Draft.start b) ⟨d, none, reports⟩ := grows_performAll D h _
  have hunclosed : d.unclosed = failed :=
    (unclosed_performAll D h (Draft.start b)).trans (Nat.zero_add _)
  refine ⟨?_, hunclosed, ?_, ?_, ?_⟩
  · refine List.pairwise_append.2 ⟨hgrows.reports, List.pairwise_singleton _ _, ?_⟩
    rintro _ hs _ ht
    obtain ⟨r, hr, rfl⟩ := List.mem_map.1 hs
    obtain rfl := List.mem_singleton.1 ht
    exact hgrows.last r hr
  · rintro before ⟨behind, rfl⟩
    exact unclosed_performAll_le D h _
  · rw [Draft.exists_finish_iff, hunclosed, failures_eq_zero]
  · intro fault hfault
    rw [Draft.finish_eq_error hfault, hunclosed]
    by_cases hfailed : failed = 0
    · rw [if_pos hfailed, if_pos hfailed]
      rfl
    · rw [if_neg hfailed, if_neg hfailed]
      rfl

/-- Two blocks fail here, one inside the other, and the script goes on behind them. -/
def interrupted : List Instruction :=
  [.parentheses [.parentheses [.write "a"], .keyword "AND",
      .parentheses [.write "b", .value (.bytes [0])], .write "c"],
    .keyword "OR", .parentheses [.write "d"]]

theorem performAll_interrupted :
    let d := (performAll .standard interrupted (.start (.start .inline none))).1
    areElementary interrupted = true
      ∧ d.text = "((a) AND (b OR (d)"
      ∧ d.unclosed = 2
      ∧ ∀ fault, d.finish = .error fault →
          fault.message = "Incomplete output: 2 unclosed parentheses" := by
  intro d
  have hsettles := performAll_settles .standard (.start .inline none) interrupted rfl
  have hfailed : failures
      (endingsAtTop .standard interrupted (.start (.start .inline none))) = 2 := by
    decide +kernel
  refine ⟨rfl, by decide +kernel, hsettles.2.1.trans hfailed, fun fault hfault => ?_⟩
  rw [hsettles.2.2.2.2 fault hfault, hfailed]
  decide +kernel

end PersistenceQuery
