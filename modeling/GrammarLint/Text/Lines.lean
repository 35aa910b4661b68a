import GrammarLint.Text.Blank

/-!
# Lines

A text splits into lines at `"\n"` and at `"\r\n"`; a text without either is
one line.
-/

namespace GrammarLint.Text

/-- Splits a text, whose current line begins with `line`, latest character first. -/
def linesFrom (line : List Char) : List Char → List (List Char)
  | [] => [line.reverse]
  | '\n' :: chars => line.reverse :: linesFrom [] chars
  | '\r' :: '\n' :: chars => line.reverse :: linesFrom [] chars
  | c :: chars => linesFrom (c :: line) chars

def lines (text : String) : List String :=
  (linesFrom [] text.toList).map String.ofList

def dropLastWhile {α : Type} (p : α → Bool) (items : List α) : List α :=
  (items.reverse.dropWhile p).reverse

end GrammarLint.Text
