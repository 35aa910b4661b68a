import GrammarLint.Grammar.Rule
import GrammarLint.Text.Quoted

/-!
# Tokens

The significant tokens of a grammar text, that is, everything but white space
and comments.  A token knows its place in the text and in the token list.
-/

namespace GrammarLint

structure Token where
  type : Grammar.Terminal
  text : String
  /-- Counted from one. -/
  line : Int
  /-- Counted from zero. -/
  column : Int
  index : Nat
  deriving DecidableEq, Repr

def describe (name text : String) (line column : Int) : String :=
  s!"{name}({Text.quoted text}) at {line}:{column}"

def Token.describe (token : Token) : String :=
  GrammarLint.describe token.type.name token.text token.line token.column

end GrammarLint
