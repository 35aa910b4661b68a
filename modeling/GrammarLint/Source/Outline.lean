import GrammarLint.Grammar.Tree
import GrammarLint.Text.Position
import GrammarLint.Token

/-!
# Outlines

A match tree with all but the tokens left out: the tokens of a text, grouped by
the rules they were matched for and numbered from left to right.
-/

namespace GrammarLint

open Grammar Text

inductive Outline where
  | token (value : Token)
  | group (rule : Rule) (parts : List Outline)

namespace Outline

def tokenOf (lines : LineIndex) (type : Terminal) (offset : Nat) (chars : List Char)
    (index : Nat) : Token :=
  let place := lines.locate offset
  ⟨type, String.ofList chars, place.line, place.column, index⟩

mutual

/-- The outline of a tree whose first token has the index `next`, and the index
after its last.  White space, comments and the inside of a token have none. -/
def ofTree (lines : LineIndex) (next : Nat) : Tree → List Outline × Nat
  | .text _ => ([], next)
  | .node rule offset children =>
      match rule with
      | .terminal type =>
          let chars := Tree.allCharsBefore [] children
          ([.token (tokenOf lines type offset chars next)], next + 1)
      | .trivia => ([], next)
      | rule =>
          let (parts, next) := ofTrees lines next children
          ([.group rule parts], next)

def ofTrees (lines : LineIndex) (next : Nat) : List Tree → List Outline × Nat
  | [] => ([], next)
  | tree :: trees =>
      let (parts, next) := ofTree lines next tree
      let (more, next) := ofTrees lines next trees
      (parts ++ more, next)

end

mutual

def tokensBefore (tail : List Token) : Outline → List Token
  | .token value => value :: tail
  | .group _ parts => allTokensBefore tail parts

def allTokensBefore (tail : List Token) : List Outline → List Token
  | [] => tail
  | part :: parts => tokensBefore (allTokensBefore tail parts) part

end

end Outline

end GrammarLint
