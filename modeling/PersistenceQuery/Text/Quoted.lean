/-!
# Quoted strings

A string literal stands between single quotes, and a quote inside it is written twice.

## Main definitions

* `doubleQuotes cs` — every quote of `cs` written twice.
* `quote s` — the string literal for `s`.
-/

namespace PersistenceQuery
namespace Text

/-- Every single quote written twice, all else once. -/
def doubleQuotes : List Char → List Char
  | [] => []
  | c :: cs => if c = '\'' then '\'' :: '\'' :: doubleQuotes cs else c :: doubleQuotes cs

@[simp] theorem doubleQuotes_nil : doubleQuotes [] = [] := rfl

theorem doubleQuotes_cons (c : Char) (cs : List Char) :
    doubleQuotes (c :: cs)
      = if c = '\'' then '\'' :: '\'' :: doubleQuotes cs else c :: doubleQuotes cs := rfl

/-- The string literal for `s`: between quotes, with the quotes inside doubled. -/
def quote (s : String) : String :=
  String.ofList ('\'' :: (doubleQuotes s.toList ++ ['\'']))

@[simp] theorem toList_quote (s : String) :
    (quote s).toList = '\'' :: (doubleQuotes s.toList ++ ['\'']) := by
  simp [quote]

end Text
end PersistenceQuery
