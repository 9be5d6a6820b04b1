import PersistenceQuery.Rendering.Draft
import PersistenceQuery.Rendering.Writing

/-!
# Scripts

Steps on a draft as data: a script is a list of instructions, some of which hold scripts of their
own.  An instruction that fails ends the script that holds it and makes the instruction around it
fail too; at the top the next instruction is carried out all the same, on the draft as the failure
left it.

## Main definitions

* `Instruction` — one step, or steps between parentheses or separators.
* `Instruction.run`, `runAll` — what an instruction and a script do to a draft.
* `Report` — the text after an instruction, and the fault that stopped it.
* `performAll` — a script at the top, with a report for every instruction carried out.
-/

namespace PersistenceQuery

/-- One step on a draft. -/
inductive Instruction
  | write (token : String)
  | space
  | keyword (word : String)
  | parentheses (body : List Instruction)
  | separated (items : List (List Instruction)) (separator : String)
  | value (v : Value)
  | parameter (name : String) (embedded : Option Value)
  | expression (e : Expr)
  | operand (e : Expr) (parent : Strength) (side : Side)
  | arguments (es : List Expr)

/-- What there is to see after an instruction was carried out. -/
structure Report where
  fault : Option Fault
  text : String

/-- A draft after some instructions, the fault that stopped them, and their reports. -/
structure Progress where
  draft : Draft
  fault : Option Fault
  reports : List Report

namespace Progress

/-- Emissions on a draft, not reported yet. -/
def ofEmissions (es : List Emission) (d : Draft) : Progress :=
  let (d', fault) := d.emitAll es
  ⟨d', fault, []⟩

/-- Goes on unless something has failed. -/
def andThen (p : Progress) (next : Draft → Progress) : Progress :=
  match p.fault with
  | some _ => p
  | none =>
    let p' := next p.draft
    ⟨p'.draft, p'.fault, p.reports ++ p'.reports⟩

/-- Reports an instruction behind those inside it. -/
def report (p : Progress) : Progress :=
  { p with reports := p.reports ++ [⟨p.fault, p.draft.text⟩] }

end Progress

mutual

/-- An instruction on a draft, with its reports. -/
def Instruction.run (D : Dialect) : Instruction → Draft → Progress
  | .write t, d => (Progress.ofEmissions [.word t] d).report
  | .space, d => (Progress.ofEmissions [.space] d).report
  | .keyword word, d => (Progress.ofEmissions (Emission.keyword word) d).report
  | .parentheses body, d =>
    ((Progress.ofEmissions [.opening] d).andThen fun d =>
      (runAll D body d).andThen (Progress.ofEmissions [.closing])).report
  | .separated items separator, d => (runItems D items separator true d).report
  | .value v, d => (Progress.ofEmissions [.value v] d).report
  | .parameter name embedded, d => (Progress.ofEmissions [.parameter name embedded] d).report
  | .expression e, d => (Progress.ofEmissions (D.write (.expr e)) d).report
  | .operand e parent side, d => (Progress.ofEmissions (D.writeOperand parent side e) d).report
  | .arguments es, d => (Progress.ofEmissions (D.writeArguments es) d).report

/-- A script inside an instruction: it ends with the first instruction that fails. -/
def runAll (D : Dialect) : List Instruction → Draft → Progress
  | [], d => ⟨d, none, []⟩
  | i :: is, d => (i.run D d).andThen fun d => runAll D is d

/-- Scripts with a separator before each but the first. -/
def runItems (D : Dialect) : List (List Instruction) → String → Bool → Draft → Progress
  | [], _, _, d => ⟨d, none, []⟩
  | item :: items, separator, isFirst, d =>
    (runAll D item (if isFirst then d else d.write separator)).andThen fun d =>
      runItems D items separator false d

end

/-- A script at the top: every instruction is carried out, also after one that failed. -/
def performAll (D : Dialect) : List Instruction → Draft → Draft × List Report
  | [], d => (d, [])
  | i :: is, d =>
    let p := i.run D d
    let (d', reports) := performAll D is p.draft
    (d', p.reports ++ reports)

end PersistenceQuery
