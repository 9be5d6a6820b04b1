import PersistenceQuery.Json.Basic

/-!
# The tokens of JSON text

JSON text is cut into punctuation, strings and other scalars before its nesting is looked at.

## Main definitions

* `Json.Token` — a token.
* `Json.Token.ofChars?` — the tokens of a text, unless a part of it is no token.
-/

namespace PersistenceQuery
namespace Json

/-- A piece of a string as it is written: a character, or an escaped unit of UTF-16. -/
inductive Piece
  | char (c : Char)
  | unit (u : Nat)
  deriving DecidableEq

/-- The character that a letter behind a backslash stands for. -/
def escaped? : Char → Option Char
  | '"' => some '"'
  | '\\' => some '\\'
  | '/' => some '/'
  | 'b' => some '\x08'
  | 'f' => some '\x0c'
  | 'n' => some '\n'
  | 'r' => some '\r'
  | 't' => some '\t'
  | _ => none

/-- The pieces of a string up to the closing quote, and the text behind it. -/
def pieces? : List Char → Option (List Piece × List Char)
  | [] => none
  | '"' :: rest => some ([], rest)
  | '\\' :: 'u' :: a :: b :: c :: d :: rest => do
    let u ← Text.hexNumber? [a, b, c, d]
    let (ps, rest) ← pieces? rest
    some (.unit u :: ps, rest)
  | '\\' :: c :: rest => do
    let c ← escaped? c
    let (ps, rest) ← pieces? rest
    some (.char c :: ps, rest)
  | c :: rest =>
    if c.toNat < 0x20 ∨ c = '\\' then none
    else do
      let (ps, rest) ← pieces? rest
      some (.char c :: ps, rest)

/-- A unit that begins a pair. -/
def isLeading (u : Nat) : Bool := 0xd800 ≤ u && u < 0xdc00

/-- A unit that ends a pair. -/
def isTrailing (u : Nat) : Bool := 0xdc00 ≤ u && u < 0xe000

/-- The characters of the pieces; two units may form a pair, and half a pair is none. -/
def joinPieces? : List Piece → Option (List Char)
  | [] => some []
  | .char c :: rest => (joinPieces? rest).map (c :: ·)
  | .unit u :: rest =>
    if isLeading u then
      match rest with
      | .unit v :: rest =>
        if isTrailing v then
          (joinPieces? rest).map (Char.ofNat (0x10000 + (u - 0xd800) * 0x400 + (v - 0xdc00)) :: ·)
        else none
      | _ => none
    else if isTrailing u then none
    else (joinPieces? rest).map (Char.ofNat u :: ·)

/-- A token of JSON text. -/
inductive Token
  | openObject
  | closeObject
  | openArray
  | closeArray
  | colon
  | comma
  /-- A string; none if it holds half a character. -/
  | text (s : Option String)
  /-- A number, a truth value or null. -/
  | scalar (j : Json)

namespace Token

/-- The blanks of JSON text. -/
def isBlank (c : Char) : Bool := c == ' ' || c == '\t' || c == '\n' || c == '\r'

/-- The characters that numbers are made of. -/
def isNumeric (c : Char) : Bool :=
  Text.isDigit c || c == '-' || c == '+' || c == '.' || c == 'e' || c == 'E'

/-- The letters that the other words are made of. -/
def isLetter (c : Char) : Bool := 'a' ≤ c && c ≤ 'z'

/-- The number that a run of numeric characters is. -/
def number? (cs : List Char) : Option Token :=
  match Decimal.Numeral.read? cs with
  | some (n, []) => some (.scalar (Json.ofNumeral n))
  | _ => none

/-- The word that a run of letters is. -/
def word? (cs : List Char) : Option Token :=
  match String.ofList cs with
  | "null" => some (.scalar .null)
  | "true" => some (.scalar (.bool true))
  | "false" => some (.scalar (.bool false))
  | _ => none

/-- The token that starts with `c` in front of `cs`, and the text behind it. -/
def next? (c : Char) (cs : List Char) : Option (Token × List Char) :=
  if c = '{' then some (.openObject, cs)
  else if c = '}' then some (.closeObject, cs)
  else if c = '[' then some (.openArray, cs)
  else if c = ']' then some (.closeArray, cs)
  else if c = ':' then some (.colon, cs)
  else if c = ',' then some (.comma, cs)
  else if c = '"' then
    (pieces? cs).map fun (ps, rest) => (.text ((joinPieces? ps).map String.ofList), rest)
  else if isLetter c then
    (word? (c :: cs.takeWhile isLetter)).map fun t => (t, cs.dropWhile isLetter)
  else (number? (c :: cs.takeWhile isNumeric)).map fun t => (t, cs.dropWhile isNumeric)

theorem pieces?_length {cs rest : List Char} {ps : List Piece}
    (h : pieces? cs = some (ps, rest)) : rest.length ≤ cs.length := by
  fun_induction pieces? cs generalizing ps rest with
  | case1 => simp at h
  | case2 r => simp_all
  | case3 a b c d r ih =>
    simp only [Option.bind_eq_bind, Option.bind_eq_some_iff, Option.some.injEq,
      Prod.mk.injEq] at h
    obtain ⟨u, _, ⟨qs, s⟩, hq, _, rfl⟩ := h
    have := ih hq
    simp only [List.length_cons]
    omega
  | case4 c r _ ih =>
    simp only [Option.bind_eq_bind, Option.bind_eq_some_iff, Option.some.injEq,
      Prod.mk.injEq] at h
    obtain ⟨u, _, ⟨qs, s⟩, hq, _, rfl⟩ := h
    have := ih hq
    simp only [List.length_cons]
    omega
  | case5 => simp at h
  | case6 c r _ _ _ _ ih =>
    simp only [Option.bind_eq_bind, Option.bind_eq_some_iff, Option.some.injEq,
      Prod.mk.injEq] at h
    obtain ⟨⟨qs, s⟩, hq, _, rfl⟩ := h
    have := ih hq
    simp only [List.length_cons]
    omega

theorem next?_length {c : Char} {cs rest : List Char} {t : Token}
    (h : next? c cs = some (t, rest)) : rest.length ≤ cs.length := by
  unfold next? at h
  have drop (p : Char → Bool) : (cs.dropWhile p).length ≤ cs.length :=
    (List.dropWhile_sublist _).length_le
  split at h
  · simp_all
  split at h
  · simp_all
  split at h
  · simp_all
  split at h
  · simp_all
  split at h
  · simp_all
  split at h
  · simp_all
  split at h
  · obtain ⟨⟨ps, r⟩, hp, hr⟩ := Option.map_eq_some_iff.1 h
    simp only [Prod.mk.injEq] at hr
    exact hr.2 ▸ pieces?_length hp
  split at h
  all_goals
    obtain ⟨_, _, hr⟩ := Option.map_eq_some_iff.1 h
    simp only [Prod.mk.injEq] at hr
    exact hr.2 ▸ drop _

/-- The tokens of a text. -/
def ofChars? (cs : List Char) : Option (List Token) :=
  match cs with
  | [] => some []
  | c :: cs =>
    if isBlank c then ofChars? cs
    else match _h : next? c cs with
      | none => none
      | some (t, rest) => (ofChars? rest).map (t :: ·)
termination_by cs.length
decreasing_by
  · simp
  · have := next?_length _h
    simp only [List.length_cons]
    omega

end Token
end Json
end PersistenceQuery
