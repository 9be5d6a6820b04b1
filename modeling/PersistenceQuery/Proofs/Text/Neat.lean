import Mathlib.Data.List.Chain
import PersistenceQuery.Proofs.Text.Unquoted

/-!
# Neat texts

Where a text has its spaces: one between two words and one behind every comma, none inside of
parentheses at their ends and none doubled.  What stands between quotes does not count.  Whether a
text is neat can be seen from every two characters that stand side by side, so neat texts can be
put behind one another if their ends allow it.

## Main definitions

* `besides` — two characters that may stand side by side.
* `Neat` — a text with its spaces where they belong.
* `NeatToken` — a neat text that takes a space in front and leaves the question of one behind open.

## Main results

* `Neat.append` — neat texts one behind the other.
* `NeatToken.of_clear`, `NeatToken.spaced` — tokens without spaces, and with a space between them.
* `Neat.not_infix`, `Neat.exists_of_comma` — where a neat text has no space, and where it has one.
-/

namespace PersistenceQuery
namespace Text

/-- The second character may stand directly behind the first: a space stands neither behind a space
or an opening parenthesis nor in front of a closing one or a comma, and behind every comma. -/
def besides (c d : Char) : Bool :=
  !(c == ' ' && (d == ' ' || d == ')' || d == ',')) && !(c == '(' && d == ' ')
    && (c != ',' || d == ' ')

/-- A character behind which a token ends: a space may be asked for there, and none has to
follow. -/
def isTokenLast (c : Char) : Bool := isFirmLast c && c != ','

/-- The text closes its quotes, and outside of them its spaces are where they belong and its only
blanks. -/
structure Neat (cs : List Char) : Prop where
  closed : isQuoting false cs = false
  chain : (unquoted cs).IsChain fun c d => besides c d = true
  blanks : ∀ c ∈ unquoted cs, isBlank c = true → c = ' '

/-- The text is neat, begins with a character that takes a space in front of it and ends in one
behind which a space may be asked for. -/
structure NeatToken (cs : List Char) : Prop extends Neat cs where
  head : cs.head?.any isFirmHead = true
  last : cs.getLast?.any isTokenLast = true

instance (cs : List Char) : Decidable (Neat cs) :=
  -- the characters of the text are looked at, not all characters that there are
  haveI : Decidable (∀ c ∈ unquoted cs, isBlank c = true → c = ' ') := List.decidableBAll _ _
  decidable_of_iff (isQuoting false cs = false
      ∧ (unquoted cs).IsChain (fun c d => besides c d = true)
      ∧ ∀ c ∈ unquoted cs, isBlank c = true → c = ' ')
    ⟨fun h => ⟨h.1, h.2.1, h.2.2⟩, fun h => ⟨h.closed, h.chain, h.blanks⟩⟩

instance (cs : List Char) : Decidable (NeatToken cs) :=
  decidable_of_iff (Neat cs ∧ cs.head?.any isFirmHead = true ∧ cs.getLast?.any isTokenLast = true)
    ⟨fun h => ⟨h.1, h.2.1, h.2.2⟩, fun h => ⟨h.toNeat, h.head, h.last⟩⟩

/-! ### The ends of a text -/

/-- The first character of a text is never skipped. -/
theorem head?_unquoted (cs : List Char) : (unquoted cs).head? = cs.head? := by
  cases cs with
  | nil => rfl
  | cons c cs =>
    rw [unquoted, outside]
    split <;> rfl

/-- The last character of a text that closes its quotes is not skipped. -/
theorem getLast?_unquoted {cs : List Char} (h : isQuoting false cs = false) :
    (unquoted cs).getLast? = cs.getLast? := by
  rcases List.eq_nil_or_concat cs with rfl | ⟨as, c, rfl⟩
  · rfl
  · rw [List.concat_eq_append] at h ⊢
    rw [isQuoting_append, isQuoting] at h
    rw [unquoted, outside_append, outside]
    split
    · simp [outside]
    · next hc =>
      rw [if_neg hc] at h
      rw [show isQuoting false as = false from h]
      simp [outside]

theorem any_head?_append {p : Char → Bool} {as : List Char} (h : as.head?.any p = true)
    (bs : List Char) : (as ++ bs).head?.any p = true := by
  cases as with
  | nil => cases h
  | cons a as => exact h

theorem any_getLast?_append {p : Char → Bool} (as : List Char) {bs : List Char}
    (h : bs.getLast?.any p = true) : (as ++ bs).getLast?.any p = true := by
  rw [List.getLast?_append]
  cases hc : bs.getLast? with
  | none =>
    rw [hc] at h
    cases h
  | some c => rwa [hc] at h

/-! ### Characters side by side -/

section
variable {c d : Char}

theorem isFirmHead_iff : isFirmHead d = true ↔ isBlank d = false ∧ d ≠ ')' ∧ d ≠ ',' := by
  simp [isFirmHead, and_assoc]

theorem isTokenLast_iff : isTokenLast c = true ↔ isBlank c = false ∧ c ≠ '(' ∧ c ≠ ',' := by
  simp [isTokenLast, isFirmLast, and_assoc]

theorem ne_space_of_not_isBlank (h : isBlank c = false) : c ≠ ' ' := by
  rintro rfl
  exact absurd h (by decide)

/-- Behind the end of a token all but a comma's space is free. -/
theorem besides_of_isTokenLast (hc : isTokenLast c = true) (d : Char) : besides c d = true := by
  obtain ⟨hblank, hopening, hcomma⟩ := isTokenLast_iff.1 hc
  simp [besides, ne_space_of_not_isBlank hblank, hopening, hcomma]

theorem besides_opening (hd : d ≠ ' ') : besides '(' d = true := by
  simp [besides, hd]

theorem besides_space (hd : isFirmHead d = true) : besides ' ' d = true := by
  obtain ⟨hblank, hclosing, hcomma⟩ := isFirmHead_iff.1 hd
  simp [besides, ne_space_of_not_isBlank hblank, hclosing, hcomma]

end

/-! ### Texts one behind the other -/

namespace Neat

variable {as bs cs : List Char}

theorem nil : Neat [] := by decide

theorem append (has : Neat as) (hbs : Neat bs)
    (h : ∀ c ∈ as.getLast?, ∀ d ∈ bs.head?, besides c d = true) : Neat (as ++ bs) := by
  have hunquoted := unquoted_append has.closed bs
  refine ⟨?_, ?_, ?_⟩
  · rw [isQuoting_append, has.closed, hbs.closed]
  · rw [hunquoted, List.isChain_append, getLast?_unquoted has.closed, head?_unquoted]
    exact ⟨has.chain, hbs.chain, h⟩
  · rw [hunquoted]
    exact List.forall_mem_append.2 ⟨has.blanks, hbs.blanks⟩

/-- Behind the end of a token there may be any neat text. -/
theorem append_of_last (has : Neat as) (hlast : as.getLast?.any isTokenLast = true)
    (hbs : Neat bs) : Neat (as ++ bs) := by
  refine has.append hbs fun c hc d _ => besides_of_isTokenLast ?_ d
  rw [Option.mem_def.1 hc] at hlast
  exact hlast

/-- A space in front of a text that takes it. -/
theorem space_cons (h : Neat cs) (hhead : cs.head?.any isFirmHead = true) : Neat (' ' :: cs) := by
  have hspace : Neat [' '] := by decide
  refine hspace.append h fun c hc d hd => ?_
  obtain rfl : ' ' = c := by simpa using hc
  rw [Option.mem_def.1 hd] at hhead
  exact besides_space hhead

end Neat

namespace NeatToken

variable {as bs cs : List Char}

/-- A text without blanks and delimiters is a token unless it is empty. -/
theorem of_clear (h : Clear isSolidChar cs) (hne : cs ≠ []) : NeatToken cs := by
  have hsolid : ∀ c ∈ unquoted cs, isBlank c = false ∧ isDelimiter c = false := by
    intro c hc
    have hc := List.all_eq_true.1 h.all c hc
    simpa [isSolidChar] using hc
  have hdelimiter : ∀ c, isDelimiter c = false → c ≠ '(' ∧ c ≠ ')' ∧ c ≠ ',' := by
    intro c hc
    simp only [isDelimiter, Bool.or_eq_false_iff, beq_eq_false_iff_ne] at hc
    exact ⟨hc.1.1.2, hc.1.2, hc.2⟩
  have hlast : ∀ c ∈ unquoted cs, isTokenLast c = true := by
    intro c hc
    obtain ⟨hblank, hc⟩ := hsolid c hc
    exact isTokenLast_iff.2 ⟨hblank, (hdelimiter c hc).1, (hdelimiter c hc).2.2⟩
  have hhead : ∀ c ∈ unquoted cs, isFirmHead c = true := by
    intro c hc
    obtain ⟨hblank, hc⟩ := hsolid c hc
    exact isFirmHead_iff.2 ⟨hblank, (hdelimiter c hc).2⟩
  refine ⟨⟨h.closed, ?_, fun c hc hblank => ?_⟩, ?_, ?_⟩
  · refine List.Pairwise.isChain (List.pairwise_of_forall_mem_list fun c hc d _ => ?_)
    exact besides_of_isTokenLast (hlast c hc) d
  · rw [(hsolid c hc).1] at hblank
    cases hblank
  · obtain ⟨c, hc⟩ := Option.ne_none_iff_exists'.1 (mt List.head?_eq_none_iff.1 hne)
    rw [hc, Option.any_some]
    exact hhead c (List.mem_of_head? (by rw [head?_unquoted, hc]))
  · obtain ⟨c, hc⟩ := Option.ne_none_iff_exists'.1 (mt List.getLast?_eq_none_iff.1 hne)
    rw [hc, Option.any_some]
    exact hlast c (List.mem_of_getLast? (by rw [getLast?_unquoted h.closed, hc]))

theorem append (has : NeatToken as) (hbs : NeatToken bs) : NeatToken (as ++ bs) :=
  ⟨has.toNeat.append_of_last has.last hbs.toNeat, any_head?_append has.head _,
    any_getLast?_append _ hbs.last⟩

/-- A space between two tokens. -/
theorem spaced (has : NeatToken as) (hbs : NeatToken bs) : NeatToken (as ++ ' ' :: bs) := by
  have hneat := has.toNeat.append_of_last has.last (hbs.toNeat.space_cons hbs.head)
  refine ⟨hneat, any_head?_append has.head _, ?_⟩
  rw [List.append_cons]
  exact any_getLast?_append _ hbs.last

end NeatToken

/-! ### The spaces of a neat text -/

/-- Two characters that may not stand side by side never do. -/
theorem Neat.not_infix {cs : List Char} (h : Neat cs) {c d : Char} (hcd : besides c d = false) :
    ¬ [c, d] <:+: unquoted cs := by
  intro hinfix
  have hpair := h.chain.infix hinfix
  rw [List.isChain_pair, hcd] at hpair
  cases hpair

/-- Behind a comma stands a space, and then no other one. -/
theorem Neat.exists_of_comma {cs as bs : List Char} (h : Neat cs)
    (hlast : cs.getLast?.any isTokenLast = true) (hcs : unquoted cs = as ++ ',' :: bs) :
    ∃ d ds, bs = ' ' :: d :: ds ∧ d ≠ ' ' := by
  have hends : (as ++ ',' :: bs).getLast?.any isTokenLast = true := by
    rw [← hcs, getLast?_unquoted h.closed, hlast]
  have hchain : (',' :: bs).IsChain fun c d => besides c d = true := by
    have hall := h.chain
    rw [hcs, List.isChain_append] at hall
    exact hall.2.1
  rcases bs with _ | ⟨c, _ | ⟨d, ds⟩⟩
  · rw [List.getLast?_concat] at hends
    cases hends
  · rw [List.isChain_pair] at hchain
    obtain rfl : c = ' ' := by simpa [besides] using hchain
    rw [List.append_cons, List.getLast?_concat] at hends
    cases hends
  · obtain ⟨hcomma, hrest⟩ := List.isChain_cons_cons.1 hchain
    obtain rfl : c = ' ' := by simpa [besides] using hcomma
    refine ⟨d, ds, rfl, ?_⟩
    rintro rfl
    cases (List.isChain_cons_cons.1 hrest).1

end Text
end PersistenceQuery
