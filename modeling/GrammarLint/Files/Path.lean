/-!
# Paths

A path is a number of leading slashes and a list of components.  Reading a path
drops empty components and `.`; `..` stays, since it can only be followed where
the directories are known.
-/

namespace GrammarLint.Files

structure Path where
  /-- None for a relative path; exactly two leading slashes stay two. -/
  slashes : Nat
  parts : List String
  deriving DecidableEq, Repr

namespace Path

def leadingSlashes (chars : List Char) : Nat :=
  match (chars.takeWhile (· == '/')).length with
  | 0 => 0
  | 2 => 2
  | _ => 1

def ofString (text : String) : Path where
  slashes := leadingSlashes text.toList
  parts :=
    ((text.toList.splitOn '/').map String.ofList).filter fun part => part != "" && part != "."

def isAbsolute (path : Path) : Bool :=
  0 < path.slashes

def text (path : Path) : String :=
  if path.slashes = 0 ∧ path.parts.isEmpty then "."
  else String.ofList (List.replicate path.slashes '/') ++ String.intercalate "/" path.parts

def join (base path : Path) : Path :=
  if path.isAbsolute then path else { base with parts := base.parts ++ path.parts }

def parent (path : Path) : Path :=
  { path with parts := path.parts.dropLast }

def hasNull (path : Path) : Bool :=
  path.parts.any (·.toList.contains '\x00')

/-- Compares components in turn, each by code points; a path precedes those below it. -/
def precedes : List String → List String → Bool
  | _, [] => false
  | [], _ :: _ => true
  | a :: as, b :: bs => a < b || (a == b && precedes as bs)

end Path

end GrammarLint.Files
