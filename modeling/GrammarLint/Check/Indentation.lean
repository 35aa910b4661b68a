import GrammarLint.Check.Basic

/-!
# Indentation of options and tokens

An entry stands at the first indentation.  An equals sign or a value that was
moved to a line of its own stands at the second.
-/

namespace GrammarLint.Check.Indentation

structure Block where
  kind : Kind
  parents : List Kind
  pairName : String
  article : String
  deriving DecidableEq, Repr

def options : Block :=
  ⟨.options, Kind.grammars ++ [.rule], "option pair", "an"⟩

def tokens : Block :=
  ⟨.tokens, Kind.grammars, "token pair", "a"⟩

def misplaced (what : String) (expected : Nat) (column : Int) : String :=
  s!"{what} should be indented by {expected} spaces but was indented by {column}"

/-- A part on another line than the one before it stands at the second indentation. -/
def wrapped (before part : Node) (what : String) : List Remark :=
  remarkIf (before.line != part.line && part.column != 2 * (indent : Int)) part.line
    (misplaced what (2 * indent) part.column)

def judgePair (block : Block) (sign left right : Node) : List Remark :=
  remarkIf (left.column != (indent : Int)) left.line
      (misplaced block.pairName indent left.column) ++
    wrapped left sign s!"= sign of {block.article} {block.pairName}" ++
    wrapped sign right s!"right hand side of {block.article} {block.pairName}"

def judgeOption (entry : Node) : List Remark :=
  match entry.kind, entry.sides? with
  | .assign, some (left, right) => judgePair options entry left right
  | _, _ => []

def judgeToken (entry : Node) : List Remark :=
  match entry.sides? with
  | some (left, right) => judgePair tokens entry left right
  | none =>
      remarkIf (entry.column != (indent : Int)) entry.line
        (misplaced "imaginary token" indent entry.column)

def enter (block : Block) (judge : Node → List Remark) (site : Site) : List Remark :=
  match site.parent? with
  | some parent =>
      if block.parents.contains parent.kind then site.node.children.flatMap judge else []
  | none => []

end GrammarLint.Check.Indentation
