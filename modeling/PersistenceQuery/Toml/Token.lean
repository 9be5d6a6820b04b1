import PersistenceQuery.Toml.DateTime

/-!
# The tokens of TOML text

TOML text is cut into words, strings, date-times and punctuation before its lines are looked at.
Date-times stand behind an equals sign only, elsewhere their digits are words.  Numbers and other
bare values are no tokens of their own: they are words, or no tokens at all.

## Main definitions

* `Toml.Token` — a token.
* `Toml.Token.ofChars?` — the tokens of a text, unless a part of it is no token.
-/

namespace PersistenceQuery
namespace Toml

/-- The blanks within a line. -/
def isBlank (c : Char) : Bool := c == ' ' || c == '\t'

/-- The characters that may stand in strings and comments: all but the control characters, of
which only the tab may. -/
def isPrintable (c : Char) : Bool := c == '\t' || (0x20 ≤ c.toNat && c.toNat != 0x7f)

/-- The characters of words. -/
def isWordChar (c : Char) : Bool := c.isAlphanum || c == '_' || c == '-'

/-- Every line ends in a line feed alone. -/
def unifyLineEnds : List Char → List Char
  | '\r' :: '\n' :: cs => '\n' :: unifyLineEnds cs
  | c :: cs => c :: unifyLineEnds cs
  | [] => []

/-! ### Strings -/

/-- The text of a string up to its closing quote, and the text behind it.  With escapes a quote
behind a backslash does not close. -/
def lineBody? (quote : Char) (escapes : Bool) : List Char → Option (List Char × List Char)
  | [] => none
  | [c] => if c = quote then some ([], []) else none
  | c :: d :: cs =>
    if c = quote then some ([], d :: cs)
    else if !isPrintable c then none
    else if escapes && c == '\\' then
      if isPrintable d then
        (lineBody? quote escapes cs).map fun (body, rest) => (c :: d :: body, rest)
      else none
    else (lineBody? quote escapes (d :: cs)).map fun (body, rest) => (c :: body, rest)

/-- A character of a string over several lines. -/
def isLinesChar (c : Char) : Bool := isPrintable c || c == '\n'

/-- The text of a string over several lines up to its three closing quotes, and the text behind
them.  Up to two quotes more belong to the string. -/
def linesBody? (quote : Char) (escapes : Bool) : List Char → Option (List Char × List Char)
  | a :: b :: c :: cs =>
    if a = quote ∧ b = quote ∧ c = quote then
      let more := (cs.take 2).takeWhile (· == quote)
      some (more, cs.drop more.length)
    else if !isLinesChar a then none
    else if escapes && a == '\\' then
      if isLinesChar b then
        (linesBody? quote escapes (c :: cs)).map fun (body, rest) => (a :: b :: body, rest)
      else none
    else (linesBody? quote escapes (b :: c :: cs)).map fun (body, rest) => (a :: body, rest)
  | _ => none

/-- The character that a letter behind a backslash stands for. -/
def escaped? : Char → Option Char
  | 'b' => some '\x08'
  | 't' => some '\t'
  | 'n' => some '\n'
  | 'f' => some '\x0c'
  | 'r' => some '\r'
  | '"' => some '"'
  | '\\' => some '\\'
  | _ => none

/-- The character with a number in hexadecimal digits. -/
def character? (digits : List Char) : Option Char := do
  let n ← Text.hexNumber? digits
  if n.isValidChar then some (Char.ofNat n) else none

/-- There is nothing more on the line. -/
def endsLine (cs : List Char) : Bool := (cs.dropWhile isBlank).head? == some '\n'

/-- The characters that the text of a string stands for.  A backslash at the end of a line removes
it with all blanks and empty lines behind it; `removing` says that this is going on. -/
def unescape? : Bool → List Char → Option (List Char)
  | _, [] => some []
  | _, '\\' :: 'u' :: a :: b :: c :: d :: rest => do
    let x ← character? [a, b, c, d]
    let xs ← unescape? false rest
    some (x :: xs)
  | _, '\\' :: 'U' :: a :: b :: c :: d :: e :: f :: g :: h :: rest => do
    let x ← character? [a, b, c, d, e, f, g, h]
    let xs ← unescape? false rest
    some (x :: xs)
  | _, '\\' :: c :: rest =>
    if endsLine (c :: rest) then unescape? true rest
    else do
      let x ← escaped? c
      let xs ← unescape? false rest
      some (x :: xs)
  | removing, c :: rest =>
    if removing && (isBlank c || c == '\n') then unescape? true rest
    else (unescape? false rest).map (c :: ·)

/-- The text of a string over several lines starts on the line behind the opening quotes, if
nothing else stands on theirs. -/
def dropLineEnd : List Char → List Char
  | '\n' :: cs => cs
  | cs => cs

/-! ### Tokens -/

/-- A token of TOML text. -/
inductive Token
  /-- A bare key or value. -/
  | word (s : String)
  /-- A string on one line. -/
  | text (s : String)
  /-- A string that may go over several lines. -/
  | lines (s : String)
  | dateTime (d : DateTime)
  | openBracket
  | closeBracket
  | openBrace
  | closeBrace
  | equals
  | comma
  | point
  | lineEnd
  deriving DecidableEq

namespace Token

/-- The string behind a quote, and the text behind it. -/
def string? (quote : Char) (escapes : Bool) (cs : List Char) : Option (Token × List Char) :=
  let decode (body : List Char) : Option String :=
    if escapes then (unescape? false body).map String.ofList else some (String.ofList body)
  if cs.take 2 = [quote, quote] then do
    let (body, rest) ← linesBody? quote escapes (cs.drop 2)
    let s ← decode (dropLineEnd body)
    some (.lines s, rest)
  else do
    let (body, rest) ← lineBody? quote escapes cs
    let s ← decode body
    some (.text s, rest)

/-- The tokens of one character. -/
def mark? : Char → Option Token
  | '[' => some .openBracket
  | ']' => some .closeBracket
  | '\x7b' => some .openBrace
  | '\x7d' => some .closeBrace
  | '=' => some .equals
  | ',' => some .comma
  | '.' => some .point
  | '\n' => some .lineEnd
  | _ => none

/-- The word or mark that starts with `c` in front of `cs`, and the text behind it. -/
def plain? (c : Char) (cs : List Char) : Option (Token × List Char) :=
  if isWordChar c then
    some (.word (String.ofList (c :: cs.takeWhile isWordChar)), cs.dropWhile isWordChar)
  else (mark? c).map (·, cs)

/-- The token that starts with `c` in front of `cs`, and the text behind it.  It may be a date-time
only where a value begins. -/
def next? (atValue : Bool) (c : Char) (cs : List Char) : Option (Token × List Char) :=
  if c = '"' then string? '"' true cs
  else if c = '\'' then string? '\'' false cs
  else if atValue then
    match DateTime.read? (c :: cs) with
    | some (d, rest) => some (.dateTime d, rest)
    | none => plain? c cs
  else plain? c cs

theorem lineBody?_length {quote : Char} {escapes : Bool} {cs body rest : List Char}
    (h : lineBody? quote escapes cs = some (body, rest)) : rest.length ≤ cs.length := by
  fun_induction lineBody? quote escapes cs generalizing body rest with
  | case1 => simp at h
  | case2 => simp_all
  | case3 => simp at h
  | case4 => simp_all
  | case5 => simp at h
  | case6 c d cs _ _ _ _ ih =>
    obtain ⟨⟨b, r⟩, hb, hr⟩ := Option.map_eq_some_iff.1 h
    simp only [Prod.mk.injEq] at hr
    have := ih hb
    simp only [← hr.2, List.length_cons]
    omega
  | case7 => simp at h
  | case8 c d cs _ _ _ ih =>
    obtain ⟨⟨b, r⟩, hb, hr⟩ := Option.map_eq_some_iff.1 h
    simp only [Prod.mk.injEq] at hr
    have := ih hb
    simp only [← hr.2, List.length_cons] at this ⊢
    omega

theorem linesBody?_length {quote : Char} {escapes : Bool} {cs body rest : List Char}
    (h : linesBody? quote escapes cs = some (body, rest)) : rest.length ≤ cs.length := by
  fun_induction linesBody? quote escapes cs generalizing body rest with
  | case1 =>
    simp only [Option.some.injEq, Prod.mk.injEq] at h
    simp only [← h.2, List.length_drop, List.length_cons]
    omega
  | case2 => simp at h
  | case3 a b c cs _ _ _ _ ih =>
    obtain ⟨⟨b, r⟩, hb, hr⟩ := Option.map_eq_some_iff.1 h
    simp only [Prod.mk.injEq] at hr
    have := ih hb
    simp only [← hr.2, List.length_cons] at this ⊢
    omega
  | case4 => simp at h
  | case5 a b c cs _ _ _ ih =>
    obtain ⟨⟨b, r⟩, hb, hr⟩ := Option.map_eq_some_iff.1 h
    simp only [Prod.mk.injEq] at hr
    have := ih hb
    simp only [← hr.2, List.length_cons] at this ⊢
    omega
  | case6 => simp at h

theorem string?_length {quote : Char} {escapes : Bool} {cs rest : List Char} {t : Token}
    (h : string? quote escapes cs = some (t, rest)) : rest.length ≤ cs.length := by
  unfold string? at h
  simp only [Option.bind_eq_bind] at h
  split at h
  · obtain ⟨⟨body, r⟩, hb, h⟩ := Option.bind_eq_some_iff.1 h
    obtain ⟨s, _, h⟩ := Option.bind_eq_some_iff.1 h
    simp only [Option.some.injEq, Prod.mk.injEq] at h
    have := linesBody?_length hb
    simp only [List.length_drop] at this
    exact h.2 ▸ Nat.le_trans this (Nat.sub_le _ _)
  · obtain ⟨⟨body, r⟩, hb, h⟩ := Option.bind_eq_some_iff.1 h
    obtain ⟨s, _, h⟩ := Option.bind_eq_some_iff.1 h
    simp only [Option.some.injEq, Prod.mk.injEq] at h
    exact h.2 ▸ lineBody?_length hb

theorem plain?_length {c : Char} {cs rest : List Char} {t : Token}
    (h : plain? c cs = some (t, rest)) : rest.length ≤ cs.length := by
  unfold plain? at h
  split at h
  · simp only [Option.some.injEq, Prod.mk.injEq] at h
    exact h.2 ▸ (List.dropWhile_sublist _).length_le
  · obtain ⟨_, _, hr⟩ := Option.map_eq_some_iff.1 h
    simp only [Prod.mk.injEq] at hr
    exact hr.2 ▸ Nat.le_refl _

theorem next?_length {atValue : Bool} {c : Char} {cs rest : List Char} {t : Token}
    (h : next? atValue c cs = some (t, rest)) : rest.length ≤ cs.length := by
  unfold next? at h
  split at h
  · exact string?_length h
  split at h
  · exact string?_length h
  split at h
  · split at h
    · rename_i hd
      simp only [Option.some.injEq, Prod.mk.injEq] at h
      exact h.2 ▸ Nat.le_of_lt_succ (DateTime.read?_length hd)
    · exact plain?_length h
  · exact plain?_length h

/-- The tokens of the rest of a text.  Blanks and comments are none.  A value begins behind an
equals sign and the blanks that follow it. -/
def scan? (atValue : Bool) (cs : List Char) : Option (List Token) :=
  match cs with
  | [] => some []
  | c :: cs =>
    if isBlank c then scan? atValue cs
    else if c = '#' then scan? false (cs.dropWhile isPrintable)
    else match _h : next? atValue c cs with
      | none => none
      | some (t, rest) => (scan? (t == .equals) rest).map (t :: ·)
termination_by cs.length
decreasing_by
  · simp
  · have := (List.dropWhile_sublist isPrintable (l := cs)).length_le
    simp only [List.length_cons]
    omega
  · have := next?_length _h
    simp only [List.length_cons]
    omega

/-- The tokens of a whole text. -/
def ofChars? (cs : List Char) : Option (List Token) := scan? false cs

end Token
end Toml
end PersistenceQuery
