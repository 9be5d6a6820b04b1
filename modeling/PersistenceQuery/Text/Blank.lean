/-!
# Blank characters

The characters that count as white space when text is trimmed or skipped: the Unicode property
`White_Space`, 25 characters in all.

## Main definitions

* `isBlank c` — `c` has the property.
* `trim cs` — the text without the blanks at both ends.
* `isBlankText s` — nothing but blanks.
-/

namespace PersistenceQuery
namespace Text

/-- The characters of the Unicode property `White_Space`. -/
def isBlank (c : Char) : Bool :=
  let n := c.toNat
  (0x09 ≤ n && n ≤ 0x0d) || n == 0x20 || n == 0x85 || n == 0xa0 || n == 0x1680
    || (0x2000 ≤ n && n ≤ 0x200a) || n == 0x2028 || n == 0x2029 || n == 0x202f || n == 0x205f
    || n == 0x3000

/-- The text from its first character that is not blank. -/
def skipBlanks (cs : List Char) : List Char := cs.dropWhile isBlank

/-- The text without the blanks at its two ends. -/
def trim (cs : List Char) : List Char :=
  (skipBlanks (skipBlanks cs).reverse).reverse

/-- There is nothing but blanks in `s`. -/
def isBlankText (s : String) : Bool := s.toList.all isBlank

@[simp] theorem skipBlanks_nil : skipBlanks [] = [] := rfl

theorem skipBlanks_cons (c : Char) (cs : List Char) :
    skipBlanks (c :: cs) = if isBlank c then skipBlanks cs else c :: cs := by
  unfold skipBlanks
  cases h : isBlank c <;> simp [h]

end Text
end PersistenceQuery
