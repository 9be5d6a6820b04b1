import PersistenceQuery.Toml.Document
import PersistenceQuery.Toml.Token

/-!
# Reading TOML text

The tokens of a text are taken one by one.  A text is refused if it is not well formed, and also if
it has a value other than strings, date-times, tables and empty lists, or a list of tables.

## Main definitions

* `Toml.Reader`, `Toml.Reader.step` — what was read so far, and one token more.
* `Toml.Document.ofText?` — the document of a text.
-/

namespace PersistenceQuery
namespace Toml

/-- What a key is for. -/
inductive KeyUse
  | header
  | assignment
  deriving DecidableEq

/-- What the next token has to be. -/
inductive Expected
  /-- The start of a line. -/
  | line
  /-- A part of a key, behind those before it. -/
  | key (before : List String) (use : KeyUse)
  /-- A point behind a part of a key, or what ends the key. -/
  | keyEnd (keys : List String) (use : KeyUse)
  /-- The value of a key. -/
  | value (keys : List String)
  /-- The end of an empty list, the value of a key. -/
  | listEnd (keys : List String)
  /-- The first key of a table between braces, or its end. -/
  | field
  /-- A comma or the end of a table between braces. -/
  | separator
  | lineEnd

/-- The state of reading. -/
structure Reader where
  document : Document
  /-- The table of the last header. -/
  current : List String
  /-- The tables between braces that are not closed yet, from the innermost out. -/
  stack : List (List String)
  expected : Expected

namespace Reader

/-- Nothing is read yet. -/
def start : Reader := ⟨.empty, [], [], .line⟩

/-- The table that keys belong to. -/
def base (r : Reader) : List String := r.stack.headD r.current

/-- Waits for a token. -/
def await (r : Reader) (expected : Expected) : Reader := { r with expected := expected }

/-- A value is complete. -/
def complete (r : Reader) : Reader := r.await (if r.stack.isEmpty then .lineEnd else .separator)

/-- Puts an item at a key. -/
def assign? (r : Reader) (keys : List String) (item : Item) : Option Reader :=
  (r.document.assign? r.base keys item).map fun d => { r with document := d }

/-- The part of a key that a token is. -/
def keyPart? : Token → Option String
  | .word s | .text s => some s
  | _ => none

/-- A part of a key. -/
def takeKey (r : Reader) (before : List String) (use : KeyUse) (t : Token) : Option Reader :=
  (keyPart? t).map fun s => r.await (.keyEnd (before ++ [s]) use)

/-- One token more. -/
def step (r : Reader) (t : Token) : Option Reader :=
  match r.expected, t with
  | .line, .lineEnd => some r
  | .line, .openBracket => some (r.await (.key [] .header))
  | .line, t => r.takeKey [] .assignment t
  | .key before use, t => r.takeKey before use t
  | .keyEnd keys use, .point => some (r.await (.key keys use))
  | .keyEnd keys .header, .closeBracket =>
    (r.document.header? keys).map fun d => ⟨d, keys, [], .lineEnd⟩
  | .keyEnd keys .assignment, .equals => some (r.await (.value keys))
  | .value keys, .text s | .value keys, .lines s => (r.assign? keys (.text s)).map complete
  | .value keys, .dateTime d => (r.assign? keys (.dateTime d)).map complete
  | .value keys, .openBracket => some (r.await (.listEnd keys))
  | .value keys, .openBrace =>
    (r.assign? keys (.table .braces)).map fun r' =>
      { r' with stack := (r.base ++ keys) :: r.stack, expected := .field }
  | .listEnd _, .lineEnd => some r
  | .listEnd keys, .closeBracket => (r.assign? keys .emptyList).map complete
  | .field, .closeBrace | .separator, .closeBrace =>
    some ({ r with stack := r.stack.tail }).complete
  | .field, t => r.takeKey [] .assignment t
  | .separator, .comma => some (r.await (.key [] .assignment))
  | .lineEnd, .lineEnd => some (r.await .line)
  | _, _ => none

end Reader

/-- The text without a mark of its byte order. -/
def dropMark : List Char → List Char
  | '\uFEFF' :: cs => cs
  | cs => cs

/-- The document of a text.  The last line need not be ended. -/
def Document.ofText? (s : String) : Option Document := do
  let tokens ← Token.ofChars? (unifyLineEnds (dropMark s.toList))
  let r ← (tokens ++ [Token.lineEnd]).foldlM Reader.step Reader.start
  match r.expected with
  | .line => some r.document
  | _ => none

end Toml
end PersistenceQuery
