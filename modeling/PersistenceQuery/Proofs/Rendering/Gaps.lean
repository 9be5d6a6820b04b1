import PersistenceQuery.Proofs.Rendering.Scripts
import PersistenceQuery.Proofs.Rendering.Spacing

/-!
# Spaces between tokens

A draft decides about a space in two places: where it is asked for, by what the text ends in, and
where the next token is written, by what that begins with.  For the text this comes to one rule
about two tokens that follow each other and the spaces asked for between them.

## Main definitions

* `Instruction.isSimple` — the instructions that write a token or ask for spaces, and no more.
* `tokensOf` — the tokens of some instructions, each with the spaces asked for in front of it.
* `endsOpen`, `beginsClosing` — the tokens behind which, and in front of which, there is no space.
* `gapBehind`, `spacedBehind` — the rule, and the text that it gives.
* `Draft.Awaits` — a draft behind a token, with the spaces asked for since then.

## Main results

* `Draft.Awaits.text_performAll` — what instructions add to a draft.
* `performAll_spaced` — the text of instructions, and the spaces that may be asked for in vain.
-/

namespace PersistenceQuery

open Draft

/-! ### The rule -/

/-- The instruction writes a token, or asks for a space, or does both as a keyword does. -/
def Instruction.isSimple : Instruction → Bool
  | .write _ | .space | .keyword _ => true
  | _ => false

/-- The instruction asks for a space before anything else, and also behind everything else. -/
def Instruction.asksForSpace : Instruction → Bool
  | .space | .keyword _ => true
  | _ => false

/-- A token in front of others.  An empty one is none at all; it only takes back the spaces that
were asked for in front of it. -/
def consToken (requests : Nat) (token : String) (rest : List (Nat × String)) :
    List (Nat × String) :=
  if token = "" then rest else (requests, token) :: rest

/-- The tokens of simple instructions, each with the number of times that a space is asked for
between it and the token in front.  In front of the first instruction a space has been asked for as
often as the given number says. -/
def tokensOf : Nat → List Instruction → List (Nat × String)
  | _, [] => []
  | requests, .write token :: is => consToken requests token (tokensOf 0 is)
  | requests, .space :: is => tokensOf (requests + 1) is
  | requests, .keyword word :: is => consToken (requests + 1) word (tokensOf 1 is)
  | requests, _ :: is => tokensOf requests is

/-- The text ends in a space or an opening parenthesis. -/
def endsOpen (s : String) : Bool := s.toList.getLast?.any fun c => c == ' ' || c == '('

/-- The text begins with a closing parenthesis, a comma or a space. -/
def beginsClosing (t : String) : Bool :=
  t.toList.head?.any fun c => c == ')' || c == ',' || c == ' '

/-- What stands between two tokens: a space if one was asked for, unless the first token ends open
or the second one begins closing.  In front of the first token there is nothing. -/
def gapBehind : Option String → Nat → String → String
  | none, _, _ => ""
  | some s, requests, t =>
    if 0 < requests ∧ endsOpen s = false ∧ beginsClosing t = false then " " else ""

/-- Tokens behind the last one, with what stands between them. -/
def spacedBehind : Option String → List (Nat × String) → String
  | _, [] => ""
  | last, (requests, token) :: rest =>
    gapBehind last requests token ++ token ++ spacedBehind (some token) rest

namespace Draft

theorem refusesSpace_eq_endsOpen {s : String} (h : s ≠ "") : refusesSpace s = endsOpen s := by
  rw [refusesSpace, endsOpen, String.back?_eq]
  cases hc : s.toList.getLast? with
  | none => exact absurd (String.toList_eq_nil_iff.1 (List.getLast?_eq_none_iff.1 hc)) h
  | some c => rfl

theorem standsClose_eq_beginsClosing {t : String} (h : t ≠ "") :
    standsClose t = beginsClosing t := by
  rw [standsClose, beginsClosing, String.front?_eq]
  cases hc : t.toList.head? with
  | none => exact absurd (String.toList_eq_nil_iff.1 (List.head?_eq_none_iff.1 hc)) h
  | some c => rfl

/-- A token hides what is in front of it. -/
theorem refusesSpace_append_of_ne (s : String) {t : String} (h : t ≠ "") :
    refusesSpace (s ++ t) = refusesSpace t := by
  rw [refusesSpace, refusesSpace, String.back?_eq, String.back?_eq, String.toList_append,
    List.getLast?_append]
  cases hc : t.toList.getLast? with
  | none => exact absurd (String.toList_eq_nil_iff.1 (List.getLast?_eq_none_iff.1 hc)) h
  | some c => rfl

/-! ### Drafts behind a token -/

/-- The draft ends in the last token, if there is one, and a space was asked for this many times
since then. -/
structure Awaits (d : Draft) (last : Option String) (requests : Nat) : Prop where
  nonempty : ∀ s ∈ last, s ≠ ""
  refuses : refusesSpace d.text = last.all refusesSpace
  pending : d.spacePending = (decide (0 < requests) && !refusesSpace d.text)

variable {d : Draft} {last : Option String} {requests : Nat}

theorem text_write_empty (d : Draft) : (d.write "").text = d.text :=
  (d.text_write_of_standsClose rfl).trans String.append_empty

theorem awaits_start (b : Binder) : (start b).Awaits none 0 := ⟨nofun, rfl, rfl⟩

namespace Awaits

theorem space (h : d.Awaits last requests) : d.space.Awaits last (requests + 1) := by
  refine ⟨h.nonempty, by rw [text_space, h.refuses], ?_⟩
  rw [text_space, Draft.space]
  cases hrefuses : refusesSpace d.text with
  | true => simp [h.pending, hrefuses]
  | false => simp

/-- A token is written behind the space that the rule gives it. -/
theorem added_eq (h : d.Awaits last requests) {t : String} (ht : t ≠ "") :
    d.added t = gapBehind last requests t ++ t := by
  rw [added, gap, h.pending, h.refuses, standsClose_eq_beginsClosing ht]
  cases last with
  | none => simp [gapBehind]
  | some s =>
    rw [Option.all_some, refusesSpace_eq_endsOpen (h.nonempty s rfl), gapBehind]
    by_cases hrequests : 0 < requests <;> cases endsOpen s <;> cases beginsClosing t <;>
      simp [hrequests]

/-- Behind a token that is not empty no space has been asked for yet. -/
theorem write (h : d.Awaits last requests) (t : String) :
    (d.write t).Awaits (if t = "" then last else some t) 0 := by
  by_cases ht : t = ""
  · subst ht
    exact ⟨h.nonempty, by rw [text_write_empty, h.refuses]; rfl, rfl⟩
  · rw [if_neg ht]
    refine ⟨fun s hs => Option.some.inj hs ▸ ht, ?_, rfl⟩
    rw [text_write, h.added_eq ht, ← String.append_assoc, refusesSpace_append_of_ne _ ht]
    rfl

theorem text_write_append (h : d.Awaits last requests) (t : String) (rest : List (Nat × String)) :
    (d.write t).text ++ spacedBehind (if t = "" then last else some t) rest
      = d.text ++ spacedBehind last (consToken requests t rest) := by
  by_cases ht : t = ""
  · subst ht
    rw [text_write_empty]
    rfl
  · rw [text_write, h.added_eq ht, consToken, if_neg ht, if_neg ht, spacedBehind,
      String.append_assoc]

/-- Simple instructions add their tokens to a draft, with what the rule says between them. -/
theorem text_performAll (D : Dialect) {is : List Instruction}
    (his : ∀ i ∈ is, i.isSimple = true) (h : d.Awaits last requests) :
    (performAll D is d).1.text = d.text ++ spacedBehind last (tokensOf requests is) := by
  induction is generalizing d last requests with
  | nil => exact String.append_empty.symm
  | cons i is ih =>
    obtain ⟨hi, hrest⟩ := List.forall_mem_cons.1 his
    cases i with
    | write t =>
      show (performAll D is (d.write t)).1.text = _
      rw [ih hrest (h.write t), h.text_write_append, tokensOf]
    | space =>
      show (performAll D is d.space).1.text = _
      rw [ih hrest h.space, text_space, tokensOf]
    | keyword w =>
      -- a space is asked for on both sides of the word
      show (performAll D is (d.space.write w).space).1.text = _
      rw [ih hrest (h.space.write w).space, text_space, h.space.text_write_append, text_space,
        tokensOf]
    | _ => cases hi

end Awaits

/-! ### Spaces asked for in vain -/

/-- A space that was asked for is not asked for again. -/
theorem space_space (d : Draft) : d.space.space = d.space := by
  rw [space, text_space]
  split
  · rfl
  · next hrefuses => rw [space, if_neg hrefuses]

end Draft

/-- It makes no difference whether a space is asked for in front of an instruction that asks for
one, or behind it. -/
theorem Instruction.run_of_asksForSpace (D : Dialect) {i : Instruction}
    (h : i.asksForSpace = true) (d : Draft) :
    (i.run D d.space).draft = (i.run D d).draft ∧ (i.run D d).draft.space = (i.run D d).draft := by
  cases i with
  | space => exact ⟨d.space_space, d.space_space⟩
  | keyword w =>
    refine ⟨?_, Draft.space_space _⟩
    show (d.space.space.write w).space = (d.space.write w).space
    rw [space_space]
  | _ => cases h

/-- The text of simple instructions is that of their tokens.  Between two tokens that follow each
other there is one space if it was asked for and both of them take it, and nothing otherwise.  A
space that is asked for in the beginning, at the end, or next to where one is asked for already
changes nothing. -/
theorem performAll_spaced (D : Dialect) (b : Binder) {is : List Instruction}
    (h : ∀ i ∈ is, i.isSimple = true) :
    let text (is : List Instruction) : String := (performAll D is (Draft.start b)).1.text
    text is = spacedBehind none (tokensOf 0 is)
      ∧ text (.space :: is) = text is
      ∧ text (is ++ [.space]) = text is
      ∧ ∀ before i behind, is = before ++ i :: behind → i.asksForSpace = true →
          text (before ++ .space :: i :: behind) = text is
            ∧ text (before ++ i :: .space :: behind) = text is := by
  intro text
  refine ⟨?_, rfl, ?_, ?_⟩
  · exact ((awaits_start b).text_performAll D h).trans String.empty_append
  · show (performAll D (is ++ [.space]) (Draft.start b)).1.text = _
    rw [performAll_append]
    exact text_space _
  · rintro before i behind rfl hi
    obtain ⟨hfront, hback⟩ := i.run_of_asksForSpace D hi (performAll D before (Draft.start b)).1
    simp only [text, performAll_append]
    refine ⟨congrArg (fun d => (performAll D behind d).1.text) hfront, ?_⟩
    exact congrArg (fun d => (performAll D behind d).1.text) hback

/-- Tokens with spaces of their own, parentheses and a comma, and spaces asked for everywhere. -/
def countedTitles : List Instruction :=
  [.space, .keyword "SELECT", .space, .write "DISTINCT ", .keyword "COUNT", .write "(", .space,
    .write "t", .space, .write ")", .keyword "AS", .keyword "n", .write ", ", .space, .write "t",
    .space]

theorem performAll_spaced_countedTitles :
    let text (is : List Instruction) : String :=
      (performAll .standard is (.start (.start .inline none))).1.text
    (∀ i ∈ countedTitles, i.isSimple = true)
      ∧ text countedTitles = "SELECT DISTINCT COUNT (t) AS n, t"
      ∧ text (.space :: countedTitles) = "SELECT DISTINCT COUNT (t) AS n, t" := by
  intro text
  have hsimple : ∀ i ∈ countedTitles, i.isSimple = true := by decide
  obtain ⟨htext, hspace, -⟩ := performAll_spaced .standard (.start .inline none) hsimple
  have htokens : spacedBehind none (tokensOf 0 countedTitles)
      = "SELECT DISTINCT COUNT (t) AS n, t" := by decide +kernel
  exact ⟨hsimple, htext.trans htokens, hspace.trans (htext.trans htokens)⟩

end PersistenceQuery
