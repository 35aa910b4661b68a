import GrammarLint.Proofs.Walk
import GrammarLint.Walker.Setup
import Mathlib.Algebra.Ring.Nat
import Mathlib.Tactic.Common

/-!
# The order of a walk

The stack of a walk gives the order of the recursion on the tree: a node is
entered, its children are visited from left to right, and the node is left.  The
calls are made in this order, up to and including the first that ends in a fault.
A check that is told about every kind enters the nodes in preorder, and what it is
told brackets the tree.
-/

namespace GrammarLint

/-! ## Sites below a site -/

namespace Site

theorem map_node_childrenFrom (site : Site) (index : Nat) (nodes : List Node) :
    (site.childrenFrom index nodes).map Site.node = nodes := by
  induction nodes generalizing index with
  | nil => rfl
  | cons node nodes ih => rw [childrenFrom, List.map_cons, ih]

theorem map_node_children (site : Site) : site.children.map Site.node = site.node.children :=
  map_node_childrenFrom site 0 _

end Site

theorem Node.size_eq (node : Node) : node.size = 1 + (node.children.map size).sum := by
  have hsizes (nodes : List Node) : sizes nodes = (nodes.map size).sum := by
    induction nodes with
    | nil => rfl
    | cons node nodes ih => rw [sizes, ih, List.map_cons, List.sum_cons]
  cases node
  rw [size, hsizes]

namespace Walker

/-! ## The stack and the recursion -/

section Order

variable (subscribers : Kind → List Check) (source : Source)

theorem visitAll_eq (site : Site) (index : Nat) (nodes : List Node) :
    visitAll subscribers source site.above site.node index nodes =
      (site.childrenFrom index nodes).flatMap fun child =>
        visit subscribers source child.above child.node := by
  induction nodes generalizing index with
  | nil => rfl
  | cons node nodes ih => rw [visitAll, ih, Site.childrenFrom, List.flatMap_cons]

theorem visit_eq (site : Site) :
    visit subscribers source site.above site.node =
      (subscribers site.node.kind).map (fun check => (check, .enter source site)) ++
        (site.children.flatMap fun child => visit subscribers source child.above child.node) ++
        (subscribers site.node.kind).map (fun check => (check, .leave source site)) := by
  obtain ⟨⟨kind, text, line, column, tokenIndex, children⟩, above⟩ := site
  rw [Site.children, ← visitAll_eq, visit]

def Task.calls : Task → List (Check × Notification)
  | .enter site => visit subscribers source site.above site.node
  | .leave site =>
      (subscribers site.node.kind).map fun check => (check, .leave source site)

/-- The number of tasks that come of a task, itself among them. -/
def Task.weight : Task → Nat
  | .enter site => 2 * site.node.size
  | .leave _ => 1

theorem Task.weight_enter (site : Site) :
    (Task.enter site).weight = 2 + ((site.children.map Task.enter).map weight).sum := by
  have hsum : ((site.children.map Task.enter).map weight).sum =
      2 * (site.node.children.map Node.size).sum := by
    rw [← site.map_node_children]
    induction site.children with
    | nil => rfl
    | cons child children ih =>
        simp only [List.map_cons, List.sum_cons, ih, weight]
        omega
  rw [hsum, weight, Node.size_eq]
  omega

/-- The tasks on the stack are done from the top, each with all that comes of it
before the next.  Every step takes one unit of the weight of the stack. -/
theorem schedule_eq (fuel : Nat) (stack : List Task) (done : List (Check × Notification))
    (h : (stack.map Task.weight).sum ≤ fuel) :
    schedule subscribers source fuel stack done =
      done.reverse ++ stack.flatMap (Task.calls subscribers source) := by
  induction fuel generalizing stack done with
  | zero =>
      cases stack with
      | nil => simp [schedule]
      | cons task stack =>
          rw [List.map_cons, List.sum_cons] at h
          cases task with
          | leave site =>
              simp only [Task.weight] at h
              omega
          | enter site =>
              rw [Task.weight_enter] at h
              omega
  | succ fuel ih =>
      cases stack with
      | nil => simp [schedule]
      | cons task stack =>
          rw [List.map_cons, List.sum_cons] at h
          cases task with
          | leave site =>
              rw [Task.weight] at h
              rw [schedule, ih _ _ (by omega)]
              simp [Task.calls]
          | enter site =>
              rw [Task.weight_enter] at h
              have hfuel : ((site.children.map Task.enter ++ .leave site :: stack).map
                  Task.weight).sum ≤ fuel := by
                rw [List.map_append, List.sum_append, List.map_cons, List.sum_cons, Task.weight]
                omega
              rw [schedule, ih _ _ hfuel]
              simp [Task.calls, visit_eq subscribers source site, List.flatMap_map]

end Order

def order (walker : Walker) (source : Source) : List (Check × Notification) :=
  let root : Site := { node := source.root }
  walker.checks.map (fun check => (check, .begin source root)) ++
    visit walker.subscribers source [] source.root ++
    walker.checks.map (fun check => (check, .finish source root))

theorem calls_eq_order (walker : Walker) (source : Source) :
    walker.calls source = walker.order source := by
  have hweight : ([Task.enter { node := source.root }].map Task.weight).sum ≤
      2 * source.root.size := by
    simp [Task.weight]
  rw [calls, order, schedule_eq _ _ _ _ _ hweight]
  simp [Task.calls]

/-! ## Calls up to a fault -/

def recordOf (call : Check × Notification) : Call :=
  ⟨call.1.identity, call.2⟩

/-- The step makes the calls in order, up to and including the first that ends in
a fault, and ends in that fault.  It changes nothing but what is collected. -/
inductive Makes (walker : Walker) (calls : List (Check × Notification)) : Step Unit → Prop where
  | all (collector : Collector) (hall : ∀ call ∈ calls, walker.faultOf call = none) :
      Makes walker calls ⟨{ walker with collector }, calls.map recordOf, .ok ()⟩
  | upTo {before after : List (Check × Notification)} {call : Check × Notification}
      {fault : Fault} (collector : Collector) (hcalls : calls = before ++ call :: after)
      (hbefore : ∀ earlier ∈ before, walker.faultOf earlier = none)
      (hfault : walker.faultOf call = some fault) :
      Makes walker calls
        ⟨{ walker with collector }, (before ++ [call]).map recordOf, .error fault⟩

theorem notifyAll_done (walker : Walker) (done : List Call)
    (calls : List (Check × Notification)) :
    walker.notifyAll done calls =
      { walker.notifyAll [] calls with
        calls := done.reverse ++ (walker.notifyAll [] calls).calls } := by
  induction calls generalizing walker done with
  | nil => simp [notifyAll]
  | cons call calls ih =>
      simp only [notifyAll]
      generalize walker.notify call.1 call.2 = told
      obtain ⟨told, _ | fault⟩ := told
      · dsimp only
        rw [ih told (_ :: done), ih told [_]]
        simp
      · simp

theorem notifyAll_cons (walker : Walker) (call : Check × Notification)
    (calls : List (Check × Notification)) :
    ∃ collector, walker.notifyAll [] (call :: calls) =
      match walker.faultOf call with
      | some fault => ⟨{ walker with collector }, [recordOf call], .error fault⟩
      | none =>
          { notifyAll { walker with collector } [] calls with
            calls := recordOf call :: (notifyAll { walker with collector } [] calls).calls } := by
  obtain ⟨collector, hnotify⟩ := walker.notify_eq call.1 call.2
  refine ⟨collector, ?_⟩
  rw [notifyAll, hnotify]
  cases walker.faultOf call with
  | some fault => rfl
  | none => exact notifyAll_done _ [_] calls

theorem makes_notifyAll (walker : Walker) (calls : List (Check × Notification)) :
    Makes walker calls (walker.notifyAll [] calls) := by
  induction calls generalizing walker with
  | nil => exact .all walker.collector (by simp)
  | cons call calls ih =>
      obtain ⟨collector, hstep⟩ := walker.notifyAll_cons call calls
      rw [hstep]
      cases hfault : walker.faultOf call with
      | some fault => exact .upTo collector (List.nil_append _).symm (by simp) hfault
      | none =>
          have hrest := ih { walker with collector }
          generalize notifyAll { walker with collector } [] calls = step at hrest
          cases hrest with
          | all later hall =>
              simp only [faultOf_withCollector] at hall
              exact .all later (List.forall_mem_cons.2 ⟨hfault, hall⟩)
          | @upTo before after last _ later hcalls hbefore hlast =>
              simp only [faultOf_withCollector] at hbefore hlast
              have hsplit : call :: calls = (call :: before) ++ last :: after := by
                rw [hcalls, List.cons_append]
              exact .upTo later hsplit (List.forall_mem_cons.2 ⟨hfault, hbefore⟩) hlast

/-! ## What one check is told -/

/-- What the check with an identity is told by calls. -/
def told (identity : Identity) (calls : List Call) : List Notification :=
  (calls.filter (·.check = identity)).map (·.notification)

def entered? : Notification → Option Node
  | .enter _ site => some site.node
  | _ => none

def ofNode : Notification → Bool
  | .enter _ _ | .leave _ _ => true
  | _ => false

mutual

/-- The notifications open a bracket for the node, then bracket its children from
left to right, and close it. -/
inductive Mirrors (source : Source) : Site → List Notification → Prop where
  | node {site : Site} {inner : List Notification}
      (hchildren : MirrorsAll source site.children inner) :
      Mirrors source site (.enter source site :: (inner ++ [.leave source site]))

inductive MirrorsAll (source : Source) : List Site → List Notification → Prop where
  | nil : MirrorsAll source [] []
  | cons {site : Site} {sites : List Site} {first rest : List Notification}
      (hfirst : Mirrors source site first) (hrest : MirrorsAll source sites rest) :
      MirrorsAll source (site :: sites) (first ++ rest)

end

section Told

variable {source : Source} {subscribers : Kind → List Check} {identity : Identity}

theorem told_append (calls others : List Call) :
    told identity (calls ++ others) = told identity calls ++ told identity others := by
  simp [told]

theorem told_notification (checks : List Check) (notification : Notification) :
    told identity ((checks.map fun check => (check, notification)).map recordOf) =
      List.replicate (checks.countP (·.identity = identity)) notification := by
  induction checks with
  | nil => rfl
  | cons check checks ih =>
      by_cases hcheck : check.identity = identity
      · simp_all [told, recordOf, List.replicate_succ]
      · simp_all [told, recordOf]

mutual

theorem mirrors_visit (h : ∀ kind, (subscribers kind).countP (·.identity = identity) = 1) :
    (node : Node) → (above : List (Node × Nat)) →
      Mirrors source ⟨node, above⟩
        (told identity ((visit subscribers source above node).map recordOf))
  | ⟨kind, text, line, column, tokenIndex, children⟩, above => by
      rw [visit, List.map_append, List.map_append, told_append, told_append,
        told_notification, told_notification, h, List.append_assoc]
      exact .node (mirrorsAll_visitAll h children _ 0)

theorem mirrorsAll_visitAll
    (h : ∀ kind, (subscribers kind).countP (·.identity = identity) = 1) :
    (nodes : List Node) → (site : Site) → (index : Nat) →
      MirrorsAll source (site.childrenFrom index nodes)
        (told identity
          ((visitAll subscribers source site.above site.node index nodes).map recordOf))
  | [], _, _ => .nil
  | node :: nodes, site, index => by
      rw [visitAll, List.map_append, told_append]
      exact .cons (mirrors_visit h node _) (mirrorsAll_visitAll h nodes site (index + 1))

end

mutual

theorem Mirrors.entered_eq {site : Site} {notifications : List Notification} :
    Mirrors source site notifications →
      notifications.filterMap entered? = site.node.preorder
  | .node hchildren => by
      rw [Node.preorder_eq, ← site.map_node_children, List.flatMap_map,
        ← hchildren.entered_eq]
      simp [entered?]

theorem MirrorsAll.entered_eq {sites : List Site} {notifications : List Notification} :
    MirrorsAll source sites notifications →
      notifications.filterMap entered? = sites.flatMap (·.node.preorder)
  | .nil => rfl
  | .cons hfirst hrest => by
      rw [List.filterMap_append, hfirst.entered_eq, hrest.entered_eq, List.flatMap_cons]

end

mutual

theorem Mirrors.ofNode {site : Site} {notifications : List Notification} :
    Mirrors source site notifications → ∀ other ∈ notifications, ofNode other = true
  | .node hchildren =>
      List.forall_mem_cons.2
        ⟨rfl, List.forall_mem_append.2 ⟨hchildren.ofNode, List.forall_mem_singleton.2 rfl⟩⟩

theorem MirrorsAll.ofNode {sites : List Site} {notifications : List Notification} :
    MirrorsAll source sites notifications → ∀ other ∈ notifications, ofNode other = true
  | .nil => by simp
  | .cons hfirst hrest => List.forall_mem_append.2 ⟨hfirst.ofNode, hrest.ofNode⟩

end

end Told

theorem filterMap_entered?_of_ofNode (notifications : List Notification) :
    (notifications.filter ofNode).filterMap entered? = notifications.filterMap entered? := by
  rw [List.filterMap_filter]
  congr 1
  funext notification
  cases notification <;> rfl

theorem filter_told_order {walker : Walker} {source : Source} {identity : Identity}
    (h : ∀ kind, (walker.subscribers kind).countP (·.identity = identity) = 1) :
    Mirrors source { node := source.root }
      ((told identity ((walker.order source).map recordOf)).filter ofNode) := by
  have hvisit := @mirrors_visit source _ _ h source.root []
  rw [order, List.map_append, List.map_append, told_append, told_append, told_notification,
    told_notification, List.filter_append, List.filter_append,
    List.filter_eq_self.2 hvisit.ofNode]
  simpa [ofNode] using hvisit

/-- A walk is the recursion on the tree.  The calls are those of the recursion, up to
and including the first that ends in a fault.  Of the calls of the recursion, those to
a check that is told about every kind enter the nodes in preorder and bracket the tree. -/
theorem walk_recursive (walker : Walker) (source : Source) :
    Makes walker (walker.order source) (walker.walk source) ∧
      ∀ identity, (∀ kind, (walker.subscribers kind).countP (·.identity = identity) = 1) →
        (told identity ((walker.order source).map recordOf)).filterMap entered? =
            source.root.preorder ∧
          Mirrors source { node := source.root }
            ((told identity ((walker.order source).map recordOf)).filter ofNode) := by
  constructor
  · rw [walk, calls_eq_order]
    exact walker.makes_notifyAll _
  · intro identity h
    have hmirrors := @filter_told_order walker source identity h
    exact ⟨by rw [← filterMap_entered?_of_ofNode, hmirrors.entered_eq], hmirrors⟩

/-- A walker with a check for every kind, between two checks for some, of which the last
fails in a rule. -/
def Mirrors.sampleWalker : Walker :=
  let check (serial : Nat) : Check := { identity := .given serial, name := "Recorder" }
  let failing : Check :=
    { check 2 with
      respond := fun
        | .enter _ site =>
            if site.node.kind = .rule then { fault := some (.stated "no") } else .silent
        | _ => .silent }
  (({} : Walker).enroll ⟨check 0, [.rule]⟩).enroll ⟨check 1, Kind.all⟩
    |>.enroll ⟨failing, [.id, .rule]⟩

def Mirrors.sampleSource : Source :=
  ⟨{ kind := .combinedGrammar
     children := [{ kind := .id, text := "g" }, { kind := .rule, text := "r"
                                                  children := [{ kind := .id }] }] }, #[], none⟩

/-- Up to the call in which the last check fails; nothing is left of the rule. -/
def Mirrors.sampleCalls : List Call :=
  let source := Mirrors.sampleSource
  let root : Site := { node := source.root }
  let name : Site := { node := { kind := .id, text := "g" }, above := [(source.root, 0)] }
  let rule : Site :=
    { node := { kind := .rule, text := "r", children := [{ kind := .id }] }
      above := [(source.root, 1)] }
  [⟨.given 0, .begin source root⟩, ⟨.given 1, .begin source root⟩,
    ⟨.given 2, .begin source root⟩, ⟨.given 1, .enter source root⟩,
    ⟨.given 1, .enter source name⟩, ⟨.given 2, .enter source name⟩,
    ⟨.given 1, .leave source name⟩, ⟨.given 2, .leave source name⟩,
    ⟨.given 0, .enter source rule⟩, ⟨.given 1, .enter source rule⟩,
    ⟨.given 2, .enter source rule⟩]

theorem walk_recursive_sample :
    Makes Mirrors.sampleWalker (Mirrors.sampleWalker.order Mirrors.sampleSource)
        (Mirrors.sampleWalker.walk Mirrors.sampleSource) ∧
      (Mirrors.sampleWalker.walk Mirrors.sampleSource).calls = Mirrors.sampleCalls ∧
      (∀ kind, (Mirrors.sampleWalker.subscribers kind).countP (·.identity = .given 1) = 1) ∧
      (told (.given 1)
          ((Mirrors.sampleWalker.order Mirrors.sampleSource).map recordOf)).filterMap entered? =
        Mirrors.sampleSource.root.preorder ∧
      Mirrors Mirrors.sampleSource { node := Mirrors.sampleSource.root }
        ((told (.given 1)
          ((Mirrors.sampleWalker.order Mirrors.sampleSource).map recordOf)).filter ofNode) := by
  have hkinds : ∀ kind,
      (Mirrors.sampleWalker.subscribers kind).countP (·.identity = .given 1) = 1 := by
    intro kind
    cases kind <;> rfl
  have hrecursive := walk_recursive Mirrors.sampleWalker Mirrors.sampleSource
  exact ⟨hrecursive.1, by decide +kernel, hkinds, hrecursive.2 _ hkinds⟩

end Walker

end GrammarLint
