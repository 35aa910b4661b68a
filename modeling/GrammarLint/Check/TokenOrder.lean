import GrammarLint.Check.Basic

/-!
# Order of tokens

In a tokens block the pairs come first, sorted by name, and the imaginary
tokens after them, sorted by name.  Of each of the three ways to break this
(mixing, pairs out of order, imaginary tokens out of order) the first
occurrence in a block is reported.
-/

namespace GrammarLint.Check.TokenOrder

structure Entry where
  name : String
  imaginary : Bool
  line : Int
  deriving DecidableEq, Repr

/-- An entry with exactly two children is a pair, named by the first of them. -/
def Entry.ofNode (node : Node) : Entry :=
  match node.sides? with
  | some (left, _) => ⟨left.text, false, left.line⟩
  | none => ⟨node.text, true, node.line⟩

structure Reported where
  mixed : Bool := false
  pairs : Bool := false
  imaginary : Bool := false
  deriving DecidableEq, Repr

def mixedMessage : String :=
  "imaginary tokens and non-imaginary tokens should not be mixed, " ++
    "whereas non-imaginary tokens should be first followed by the imaginary ones."

def orderMessage (previous name : String) : String :=
  "tokens are not in alphabetical order, spotted first occurrence. " ++
    s!"{previous} and {name} have to be switched at least (maybe there are more errors)."

def judgeStep (reported : Reported) (previous entry : Entry) : Reported × List Remark :=
  match previous.imaginary, entry.imaginary with
  | true, false =>
      if reported.mixed then (reported, [])
      else ({ reported with mixed := true }, [⟨entry.line, mixedMessage⟩])
  | false, true => (reported, [])
  | true, true =>
      if !reported.imaginary && entry.name < previous.name then
        ({ reported with imaginary := true },
          [⟨entry.line, orderMessage previous.name entry.name⟩])
      else (reported, [])
  | false, false =>
      if !reported.pairs && entry.name < previous.name then
        ({ reported with pairs := true },
          [⟨entry.line, orderMessage previous.name entry.name⟩])
      else (reported, [])

def judgeFrom (reported : Reported) (previous : Entry) : List Entry → List Remark
  | [] => []
  | entry :: entries =>
      let (reported, remarks) := judgeStep reported previous entry
      remarks ++ judgeFrom reported entry entries

def judge : List Entry → List Remark
  | [] => []
  | first :: entries => judgeFrom {} first entries

def enter (block : Node) : List Remark :=
  judge (block.children.map Entry.ofNode)

end GrammarLint.Check.TokenOrder
