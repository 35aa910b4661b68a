import GrammarLint.Walker.Basic

/-!
# Walking a tree

A walk tells every registered check that it begins, then goes through the tree,
and at last tells every check that it ends.  A node is entered before and left
after the nodes below it, and of one node the checks are told in the order of
their registration.

`schedule` lists the calls of a walk; it keeps the nodes still to be entered or
left on a stack.  `visit` is the same order, by recursion on the tree.
-/

namespace GrammarLint.Walker

/-! ## The order of a walk -/

inductive Task where
  | enter (site : Site)
  | leave (site : Site)
  deriving DecidableEq, Repr

/-- The calls made for the tasks on a stack, after the calls `done`, latest first. -/
def schedule (subscribers : Kind → List Check) (source : Source) :
    (fuel : Nat) → (stack : List Task) → (done : List (Check × Notification)) →
      List (Check × Notification)
  | 0, _, done => done.reverse
  | _, [], done => done.reverse
  | fuel + 1, .leave site :: stack, done =>
      let calls := (subscribers site.node.kind).map fun check =>
        (check, Notification.leave source site)
      schedule subscribers source fuel stack (calls.reverse ++ done)
  | fuel + 1, .enter site :: stack, done =>
      let calls := (subscribers site.node.kind).map fun check =>
        (check, Notification.enter source site)
      schedule subscribers source fuel
        (site.children.map .enter ++ .leave site :: stack) (calls.reverse ++ done)

mutual

def visit (subscribers : Kind → List Check) (source : Source) (above : List (Node × Nat)) :
    Node → List (Check × Notification)
  | node@⟨_, _, _, _, _, children⟩ =>
      (subscribers node.kind).map (fun check => (check, .enter source ⟨node, above⟩)) ++
        visitAll subscribers source above node 0 children ++
        (subscribers node.kind).map (fun check => (check, .leave source ⟨node, above⟩))

def visitAll (subscribers : Kind → List Check) (source : Source) (above : List (Node × Nat))
    (parent : Node) (index : Nat) : List Node → List (Check × Notification)
  | [] => []
  | child :: children =>
      visit subscribers source ((parent, index) :: above) child ++
        visitAll subscribers source above parent (index + 1) children

end

def calls (walker : Walker) (source : Source) : List (Check × Notification) :=
  let root : Site := { node := source.root }
  walker.checks.map (fun check => (check, .begin source root)) ++
    schedule walker.subscribers source (2 * source.root.size) [.enter root] [] ++
    walker.checks.map (fun check => (check, .finish source root))

def walk (walker : Walker) (source : Source) : Step Unit :=
  walker.notifyAll [] (walker.calls source)

end GrammarLint.Walker
