import PersistenceQuery.Decimal.Layout
import PersistenceQuery.Json.Basic

/-!
# Writing JSON text

A value as compact text, and as text on indented lines.

## Main definitions

* `Json.compact` — no blanks at all.
* `Json.pretty` — every item and field on a line of its own, two spaces deeper than its container.
-/

namespace PersistenceQuery
namespace Json

/-- A digit of a hexadecimal escape. -/
def hexDigitChar (n : Nat) : Char := Nat.digitChar n

/-- A character of a string as it is written: quotes, backslashes and control characters are
escaped. -/
def escapeChar (c : Char) : List Char :=
  if c = '"' then ['\\', '"']
  else if c = '\\' then ['\\', '\\']
  else if c = '\x08' then ['\\', 'b']
  else if c = '\x0c' then ['\\', 'f']
  else if c = '\n' then ['\\', 'n']
  else if c = '\r' then ['\\', 'r']
  else if c = '\t' then ['\\', 't']
  else if c.toNat < 0x20 then
    ['\\', 'u', '0', '0', hexDigitChar (c.toNat / 16), hexDigitChar (c.toNat % 16)]
  else [c]

/-- A string between double quotes. -/
def stringText (s : String) : String :=
  String.ofList ('"' :: s.toList.flatMap escapeChar ++ ['"'])

/-- A number that is not finite has no text of its own. -/
def realText (x : Binary64) : String :=
  if x.isFinite then String.ofList (Decimal.Layout.exchange.write x) else "null"

mutual

/-- The text of a value without blanks. -/
def compact : Json → String
  | .null | .unreadable => "null"
  | .bool b => if b then "true" else "false"
  | .integer n => toString n
  | .real x => realText x
  | .string s => stringText s
  | .array items => "[" ++ compactItems items ++ "]"
  | .object fields => "\x7b" ++ compactFields fields ++ "\x7d"

/-- Items with commas between them. -/
def compactItems : List Json → String
  | [] => ""
  | j :: js => compact j ++ compactMoreItems js

/-- Items behind another. -/
def compactMoreItems : List Json → String
  | [] => ""
  | j :: js => "," ++ compact j ++ compactMoreItems js

/-- Fields with commas between them. -/
def compactFields : List (String × Json) → String
  | [] => ""
  | (k, j) :: fields => stringText k ++ ":" ++ compact j ++ compactMoreFields fields

/-- Fields behind another. -/
def compactMoreFields : List (String × Json) → String
  | [] => ""
  | (k, j) :: fields => "," ++ stringText k ++ ":" ++ compact j ++ compactMoreFields fields

end

/-- A line break and the indentation of a level. -/
def newLine (level : Nat) : String := "\n" ++ String.ofList (List.replicate (2 * level) ' ')

/-- Texts on lines of their own between two brackets; without any the brackets stand together. -/
def block (level : Nat) (opening closing : String) : List String → String
  | [] => opening ++ closing
  | entries =>
    opening ++ newLine (level + 1) ++ String.intercalate ("," ++ newLine (level + 1)) entries
      ++ newLine level ++ closing

mutual

/-- The text of a value on lines, at a level of indentation. -/
def prettyAt : Json → Nat → String
  | .array items, level => block level "[" "]" (prettyItems items (level + 1))
  | .object fields, level => block level "\x7b" "\x7d" (prettyFields fields (level + 1))
  | .null, _ => "null"
  | .unreadable, _ => "null"
  | .bool b, _ => if b then "true" else "false"
  | .integer n, _ => toString n
  | .real x, _ => realText x
  | .string s, _ => stringText s

/-- The texts of items. -/
def prettyItems : List Json → Nat → List String
  | [], _ => []
  | j :: js, level => prettyAt j level :: prettyItems js level

/-- The texts of fields. -/
def prettyFields : List (String × Json) → Nat → List String
  | [], _ => []
  | (k, j) :: fields, level =>
    (stringText k ++ ": " ++ prettyAt j level) :: prettyFields fields level

end

/-- The text of a value on lines. -/
def pretty (j : Json) : String := prettyAt j 0

end Json
end PersistenceQuery
