import GrammarLint.Check.Basic

/-!
# Spaces around equals signs

The entries of options and tokens blocks have spaces around the equals sign, or
have none, as the setting says.  A side on another line than the sign is not
checked.
-/

namespace GrammarLint.Check.Spacing

def hasSpaceBetween (left right : Node) : Bool :=
  left.column + left.text.length + 1 ≤ right.column

inductive Side where
  | before
  | after
  deriving DecidableEq, Repr

def Side.word : Side → String
  | .before => "before"
  | .after => "after"

def judgeGap (pairType : String) (spaced : Bool) (side : Side) (left right : Node) :
    List Remark :=
  if left.line != right.line then []
  else if spaced then
    remarkIf (!hasSpaceBetween left right) right.line
      (s!"{pairType} pair needs spaces around = and there was " ++ s!"no space {side.word} =")
  else
    remarkIf (hasSpaceBetween left right) right.line
      (s!"{pairType} pair should not have spaces around = and " ++
        s!"space found {side.word} =")

def judgeEntry (pairType : String) (spaced : Bool) (entry : Node) : List Remark :=
  match entry.kind, entry.sides? with
  | .assign, some (left, right) =>
      judgeGap pairType spaced .before left entry ++ judgeGap pairType spaced .after entry right
  | _, _ => []

def enter (pairType : String) (spaced : Bool) (block : Node) : List Remark :=
  block.children.flatMap (judgeEntry pairType spaced)

end GrammarLint.Check.Spacing
