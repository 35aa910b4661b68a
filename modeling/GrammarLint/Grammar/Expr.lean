import GrammarLint.Grammar.Pattern
import GrammarLint.Grammar.Rule

/-!
# Parsing expressions

Bodies of rules.  A choice tries its members in order and keeps the first that
matches; a repetition takes as many matches as there are and is never taken
back.
-/

namespace GrammarLint.Grammar

inductive Expr where
  | literal (text : String)
  | pattern (shape : Pattern)
  | rule (name : Rule)
  | seq (first second : Expr)
  | choice (first second : Expr)
  | optional (body : Expr)
  | many (body : Expr)
  | many1 (body : Expr)
  deriving DecidableEq, Repr

namespace Expr

def inOrder (first : Expr) : List Expr → Expr
  | [] => first
  | next :: rest => .seq first (inOrder next rest)

def firstOf (first : Expr) : List Expr → Expr
  | [] => first
  | next :: rest => .choice first (firstOf next rest)

def rules : Expr → List Rule
  | .literal _ => []
  | .pattern _ => []
  | .rule name => [name]
  | .seq first second => first.rules ++ second.rules
  | .choice first second => first.rules ++ second.rules
  | .optional body => body.rules
  | .many body => body.rules
  | .many1 body => body.rules

end Expr

end GrammarLint.Grammar
