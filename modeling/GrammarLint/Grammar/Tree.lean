import GrammarLint.Grammar.Rule

/-!
# Match trees

What a successful match leaves behind: the rules that matched, where each
began, and at the leaves every character of the text.
-/

namespace GrammarLint.Grammar

inductive Tree where
  | text (chars : List Char)
  | node (rule : Rule) (offset : Nat) (children : List Tree)

namespace Tree

mutual

def charsBefore (tail : List Char) : Tree → List Char
  | .text chars => chars ++ tail
  | .node _ _ children => allCharsBefore tail children

def allCharsBefore (tail : List Char) : List Tree → List Char
  | [] => tail
  | tree :: trees => tree.charsBefore (allCharsBefore tail trees)

end

def chars (tree : Tree) : List Char :=
  tree.charsBefore []

end Tree

end GrammarLint.Grammar
