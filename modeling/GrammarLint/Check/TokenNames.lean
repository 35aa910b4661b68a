import GrammarLint.Check.Basic
import GrammarLint.Text.Case

/-!
# Names of imaginary tokens

Imaginary tokens are written in upper case.
-/

namespace GrammarLint.Check.TokenNames

def judge (entry : Node) : List Remark :=
  remarkIf (entry.children.isEmpty && !Text.isUpperCase entry.text) entry.line
    "imaginary tokens have to be in upper case."

def enter (block : Node) : List Remark :=
  block.children.flatMap judge

end GrammarLint.Check.TokenNames
