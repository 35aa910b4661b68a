/-!
# Name and path patterns

Patterns for the names of files: `*` stands for any characters, `?` for one,
and a bracketed set for one of its members, or with `!` for one of the others.
A bracket that is not closed stands for itself.  A pattern for paths has one
such pattern for each component; `**` stands for any number of components.
-/

namespace GrammarLint.Files

inductive NamePattern where
  | literal (c : Char)
  | anyOne
  | anyMany
  | oneOf (negated : Bool) (ranges : List (Char × Char))
  deriving DecidableEq, Repr

namespace NamePattern

def ranges : List Char → List (Char × Char)
  | a :: '-' :: b :: rest => (a, b) :: ranges rest
  | a :: rest => (a, a) :: ranges rest
  | [] => []

def closeSet? (chars : List Char) : Option (NamePattern × List Char) :=
  let negated := chars.head? == some '!'
  let chars := if negated then chars.drop 1 else chars
  let first := chars.take 1
  let body := (chars.drop 1).takeWhile (· != ']')
  match (chars.drop 1).dropWhile (· != ']') with
  | ']' :: rest => some (.oneOf negated (ranges (first ++ body)), rest)
  | _ => none

def read : (fuel : Nat) → List Char → List NamePattern
  | 0, _ => []
  | _, [] => []
  | fuel + 1, '*' :: chars => .anyMany :: read fuel chars
  | fuel + 1, '?' :: chars => .anyOne :: read fuel chars
  | fuel + 1, '[' :: chars =>
      match closeSet? chars with
      | some (set, rest) => set :: read fuel rest
      | none => .literal '[' :: read fuel chars
  | fuel + 1, c :: chars => .literal c :: read fuel chars

def ofString (text : String) : List NamePattern :=
  read text.length text.toList

def someTail (rest : List Char → Bool) : List Char → Bool
  | [] => rest []
  | c :: chars => rest (c :: chars) || someTail rest chars

def accepts : List NamePattern → List Char → Bool
  | [], chars => chars.isEmpty
  | .anyMany :: rest, chars => someTail (accepts rest) chars
  | .anyOne :: rest, _ :: chars => accepts rest chars
  | .literal c :: rest, d :: chars => c == d && accepts rest chars
  | .oneOf negated ranges :: rest, d :: chars =>
      (ranges.any fun (low, high) => low ≤ d && d ≤ high) != negated && accepts rest chars
  | _ :: _, [] => false

end NamePattern

/-! ## Paths -/

inductive PathStep where
  | name (pattern : List NamePattern)
  | anyDepth
  deriving DecidableEq, Repr

namespace PathStep

def hasTwoStars : List Char → Bool
  | '*' :: '*' :: _ => true
  | _ :: chars => hasTwoStars chars
  | [] => false

/-- Two stars must make up a component by themselves. -/
def ofComponent? (component : String) : Option PathStep :=
  if component = "**" then some .anyDepth
  else if hasTwoStars component.toList then none
  else some (.name (NamePattern.ofString component))

/-- A slash at the end asks for a component without a name, which no file has. -/
def components (text : String) : List String :=
  let parts := (text.toList.splitOn '/').map String.ofList
  parts.dropLast.filter (fun part => part != "" && part != ".") ++
    parts.getLast?.toList.filter (· != ".")

def ofString? (text : String) : Option (List PathStep) :=
  (components text).mapM ofComponent?

def someTail (rest : List String → Bool) : List String → Bool
  | [] => rest []
  | part :: parts => rest (part :: parts) || someTail rest parts

/-- Two stars stand for directories, so at the end of a pattern they accept no file. -/
def accepts : List PathStep → List String → Bool
  | [], parts => parts.isEmpty
  | [.anyDepth], _ => false
  | .anyDepth :: rest, parts => someTail (accepts rest) parts
  | .name pattern :: rest, part :: parts =>
      NamePattern.accepts pattern part.toList && accepts rest parts
  | .name _ :: _, [] => false

end PathStep

end GrammarLint.Files
