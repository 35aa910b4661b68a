import GrammarLint.Kind
import GrammarLint.Token

/-!
# Nodes

A node of the tree of a grammar: a kind, the text and place of the token it
came from, the index of that token (below zero if there is none), and its
children in source order.  `Site` is a node together with the way down to it
from the root, and so knows its parent and its next sibling.
-/

namespace GrammarLint

structure Node where
  kind : Kind
  text : String := ""
  line : Int := 0
  column : Int := 0
  tokenIndex : Int := -1
  children : List Node := []
  deriving Repr

namespace Node

mutual

def beqNode : Node → Node → Bool
  | ⟨k, t, l, c, i, ns⟩, ⟨k', t', l', c', i', ns'⟩ =>
      k == k' && t == t' && l == l' && c == c' && i == i' && beqNodes ns ns'

def beqNodes : List Node → List Node → Bool
  | [], [] => true
  | n :: ns, n' :: ns' => beqNode n n' && beqNodes ns ns'
  | _, _ => false

end

mutual

theorem beqNode_iff : (a b : Node) → (beqNode a b = true ↔ a = b)
  | ⟨k, t, l, c, i, ns⟩, ⟨k', t', l', c', i', ns'⟩ => by
      simp [beqNode, beqNodes_iff ns ns', and_assoc]

theorem beqNodes_iff : (as bs : List Node) → (beqNodes as bs = true ↔ as = bs)
  | [], [] => by simp [beqNodes]
  | [], _ :: _ => by simp [beqNodes]
  | _ :: _, [] => by simp [beqNodes]
  | a :: as, b :: bs => by simp [beqNodes, beqNode_iff a b, beqNodes_iff as bs]

end

instance : DecidableEq Node := fun a b =>
  decidable_of_iff (beqNode a b = true) (beqNode_iff a b)

def ofToken (kind : Kind) (token : Token) : Node :=
  { kind, text := token.text, line := token.line, column := token.column,
    tokenIndex := token.index }

def addChild (node child : Node) : Node :=
  { node with children := node.children ++ [child] }

def addChildren (node : Node) (children : List Node) : Node :=
  { node with children := node.children ++ children }

/-- The child at an index; a negative index counts from the end. -/
def child? (node : Node) (index : Int) : Option Node :=
  if 0 ≤ index then node.children[index.toNat]?
  else if 0 ≤ node.children.length + index then
    node.children[(node.children.length + index).toNat]?
  else none

def firstOfKind? (node : Node) (kind : Kind) : Option Node :=
  node.children.find? (·.kind == kind)

def childrenOfKind (node : Node) (kind : Kind) : List Node :=
  node.children.filter (·.kind == kind)

mutual

def preorderBefore (tail : List Node) : Node → List Node
  | node@⟨_, _, _, _, _, children⟩ => node :: preordersBefore tail children

def preordersBefore (tail : List Node) : List Node → List Node
  | [] => tail
  | node :: nodes => preorderBefore (preordersBefore tail nodes) node

end

def preorder (node : Node) : List Node :=
  preorderBefore [] node

mutual

def size : Node → Nat
  | ⟨_, _, _, _, _, children⟩ => 1 + sizes children

def sizes : List Node → Nat
  | [] => 0
  | node :: nodes => size node + sizes nodes

end

def describe (node : Node) : String :=
  GrammarLint.describe node.kind.name node.text node.line node.column

end Node

/-! ## Sites -/

/-- A node, and above it every ancestor with the index of the child on the way
down, nearest first. -/
structure Site where
  node : Node
  above : List (Node × Nat) := []
  deriving DecidableEq, Repr

namespace Site

def parent? (site : Site) : Option Node :=
  site.above.head?.map (·.1)

def index? (site : Site) : Option Nat :=
  site.above.head?.map (·.2)

def nextSibling? (site : Site) : Option Node :=
  match site.above with
  | (parent, index) :: _ => parent.children[index + 1]?
  | [] => none

def child? (site : Site) (index : Nat) : Option Site :=
  site.node.children[index]?.map fun child => ⟨child, (site.node, index) :: site.above⟩

def childrenFrom (site : Site) (index : Nat) : List Node → List Site
  | [] => []
  | node :: nodes =>
      ⟨node, (site.node, index) :: site.above⟩ :: childrenFrom site (index + 1) nodes

def children (site : Site) : List Site :=
  childrenFrom site 0 site.node.children

def descend? (site : Site) : List Nat → Option Site
  | [] => some site
  | index :: path => (site.child? index).bind (descend? · path)

end Site

def Node.modifyAt (change : Node → Node) : List Nat → Node → Node
  | [], node => change node
  | index :: path, node =>
      { node with children := node.children.modify index (Node.modifyAt change path) }

end GrammarLint
