import GrammarLint.Diagnostic
import GrammarLint.Source.Basic

/-!
# What a check says

A check answers a notification with the violations it logs, each a line and a
message, and possibly with a fault that ends the walk.
-/

namespace GrammarLint

structure Remark where
  line : Int
  message : String
  deriving DecidableEq, Repr

structure Reaction where
  remarks : List Remark := []
  fault : Option Fault := none

namespace Reaction

def silent : Reaction := {}

def ofRemarks (remarks : List Remark) : Reaction := { remarks }

def followedBy (first second : Reaction) : Reaction :=
  match first.fault with
  | some _ => first
  | none => ⟨first.remarks ++ second.remarks, second.fault⟩

end Reaction

def indent : Nat := 4

def remarkIf (condition : Bool) (line : Int) (message : String) : List Remark :=
  if condition then [⟨line, message⟩] else []

def Node.sides? (node : Node) : Option (Node × Node) :=
  match node.children with
  | [left, right] => some (left, right)
  | _ => none

end GrammarLint
