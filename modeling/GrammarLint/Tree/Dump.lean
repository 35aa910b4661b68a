import GrammarLint.Tree.Node
import GrammarLint.Text.Quoted

/-!
# Dumps of a tree

Two written forms of a tree.  The S-expression puts every node between
parentheses: kind, text, line, column, then the children.  The indented form
puts every node on a line of its own, two spaces deeper than its parent.
-/

namespace GrammarLint.Node

/-! ## S-expressions -/

def encodeSexpChar (c : Char) : List Char :=
  if c = '\\' ∨ c = '"' then ['\\', c]
  else if c = '\x08' then ['\\', 'b']
  else if c = '\x0c' then ['\\', 'f']
  else if c = '\n' then ['\\', 'n']
  else if c = '\r' then ['\\', 'r']
  else if c = '\t' then ['\\', 't']
  else [c]

def encodeSexpText (chars : List Char) : List Char :=
  '"' :: chars.flatMap encodeSexpChar ++ ['"']

def encodeInt (n : Int) : List Char :=
  (toString n).toList

def encodeSexpHead (node : Node) : List Char :=
  node.kind.name.toList ++ ' ' :: encodeSexpText node.text.toList ++
    ' ' :: encodeInt node.line ++ ' ' :: encodeInt node.column

mutual

def encodeSexp : Node → List Char
  | node@⟨_, _, _, _, _, children⟩ =>
      '(' :: encodeSexpHead node ++ encodeSexps children ++ [')']

def encodeSexps : List Node → List Char
  | [] => []
  | node :: nodes => ' ' :: encodeSexp node ++ encodeSexps nodes

end

def sexp (node : Node) : String :=
  String.ofList (encodeSexp node)

/-! ## Indented lines -/

def indentWidth : Nat := 2

/-- A level below zero is not indented. -/
def padding (level : Int) : String :=
  String.ofList (List.replicate (indentWidth * level.toNat) ' ')

def indentedLine (level : Int) (node : Node) : String :=
  s!"{padding level}{node.kind.name} {Text.quoted node.text} @{node.line}:{node.column}"

mutual

def indentedLines (level : Int) : Node → List String
  | node@⟨_, _, _, _, _, children⟩ =>
      indentedLine level node :: indentedLinesOf (level + 1) children

def indentedLinesOf (level : Int) : List Node → List String
  | [] => []
  | node :: nodes => indentedLines level node ++ indentedLinesOf level nodes

end

def indented (level : Int) (node : Node) : String :=
  String.intercalate "\n" (indentedLines level node)

end GrammarLint.Node
