/-!
# Character classes as boundary lists

A class of code points is kept as the increasing list of the code points at
which membership changes: the first boundary opens the first range, the second
closes it, and so on.  A character belongs to the class when an odd number of
boundaries lie at or below it.
-/

namespace GrammarLint.Text

structure CharClass where
  boundaries : List Nat
  deriving DecidableEq, Repr

namespace CharClass

def contains (cls : CharClass) (c : Char) : Bool :=
  cls.boundaries.foldl
    (fun inside boundary => if boundary ≤ c.toNat then !inside else inside) false

end CharClass

end GrammarLint.Text
