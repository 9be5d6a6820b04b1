/-!
# Styles of terminal text

Colours and weights of text on a terminal, switched on and off by escape codes.

## Main definitions

* `Style` — the codes that switch a style on.
* `Style.apply` — a text in a style, if colours are wanted.
-/

namespace PersistenceQuery
namespace Console

/-- A style, by the numbers that switch it on. -/
structure Style where
  codes : String
  deriving DecidableEq, Repr

namespace Style

def dimmed : Style := ⟨"2"⟩
def cyan : Style := ⟨"36"⟩
def yellow : Style := ⟨"33"⟩
def white : Style := ⟨"37"⟩
def boldWhite : Style := ⟨"1;37"⟩
def boldCyan : Style := ⟨"1;36"⟩
def boldRed : Style := ⟨"1;31"⟩

/-- The escape code that switches all styles off. -/
def reset : List Char := ['\x1b', '[', '0', 'm']

/-- The escape code that switches the style on. -/
def opening (s : Style) : List Char := '\x1b' :: '[' :: (s.codes.toList ++ ['m'])

/-- A text in which the style goes on behind every reset. -/
def resume (s : Style) : List Char → List Char
  | '\x1b' :: '[' :: '0' :: 'm' :: cs => reset ++ s.opening ++ resume s cs
  | c :: cs => c :: resume s cs
  | [] => []

/-- A text in the style, and as it is where no colours are wanted. -/
def apply (s : Style) (colored : Bool) (text : String) : String :=
  if colored then String.ofList (s.opening ++ s.resume text.toList ++ reset) else text

@[simp] theorem apply_false (s : Style) (text : String) : s.apply false text = text := rfl

end Style
end Console
end PersistenceQuery
