/-!
# Attribute paths

A path such as `b.author.name`, as its segments.

## Main definitions

* `Path.text`, `Path.ofText` — the segments joined by points, and a text cut at its points.
-/

namespace PersistenceQuery

/-- A path: the names between its points. -/
structure Path where
  segments : List String
  deriving DecidableEq

namespace Path

/-- The segments with points between them. -/
def joined : List (List Char) → List Char
  | [] => []
  | [s] => s
  | s :: rest => s ++ '.' :: joined rest

/-- A text cut at its points: one segment more than there are points. -/
def cut : List Char → List (List Char)
  | [] => [[]]
  | c :: cs =>
    if c = '.' then [] :: cut cs
    else match cut cs with
      | [] => [[c]]
      | s :: rest => (c :: s) :: rest

/-- The path as text. -/
def text (p : Path) : String := String.ofList (joined (p.segments.map String.toList))

/-- The path a text stands for. -/
def ofText (s : String) : Path := ⟨(cut s.toList).map String.ofList⟩

end Path
end PersistenceQuery
