import GrammarLint.Fault
import GrammarLint.Source.Assemble

/-!
# Sources

A source is what is known of a parsed grammar file: its tree, its tokens, and
its name.  `Source.parse` reads a text as a grammar.
-/

namespace GrammarLint

open Grammar Text

structure Source where
  root : Node
  tokens : Array Token := #[]
  file : Option String := none
  deriving DecidableEq, Repr

namespace Source

/-- The token just before the token of a node.  The first token has none before
it, and an index beyond the tokens is out of range. -/
def tokenBefore (source : Source) (node : Node) : Except Fault (Option Token) :=
  if node.tokenIndex ≤ 0 then .ok none
  else
    match source.tokens[(node.tokenIndex - 1).toNat]? with
    | some token => .ok (some token)
    | none => .error .outOfRange

def ofTree (file : Option String) (chars : List Char) (tree : Tree) : Option Source :=
  let (outlines, _) := Outline.ofTree (LineIndex.ofChars chars) 0 tree
  match Outline.itemsOf outlines with
  | some (.node root :: _) =>
      some ⟨root, (Outline.allTokensBefore [] outlines).toArray, file⟩
  | _ => none

def errorAt (file : Option String) (chars : List Char) (fault : MatchFault) : SourceError :=
  let place := Position.ofOffset chars fault.offset
  let detail := fault.message chars
  let cause : SourceCause :=
    match fault with
    | .unfinished _ _ => .unexpected detail
    | _ => .unmatched detail
  ⟨cause, file, place.line, place.column, ""⟩

def parse (text : String) (file : Option String) : Except SourceError Source :=
  let chars := text.toList
  match Grammar.parse .grammarFile chars with
  | .error fault => .error (errorAt file chars fault)
  | .ok tree =>
      match ofTree file chars tree with
      | some source => .ok source
      | none => .error ⟨.unassembled, file, 0, 0, ""⟩

end Source

end GrammarLint
