import GrammarLint.Proofs.Node
import GrammarLint.Walker.Process

/-!
# Walks

Every call of a walk is made for a node of the tree, and to a check that is told
about its kind.  Where no check says anything a file has no diagnostics.
-/

namespace GrammarLint

theorem Site.node_mem_of_mem_children {site child : Site} (h : child ∈ site.children) :
    child.node ∈ site.node.children := by
  have hfrom (nodes : List Node) (index : Nat) (h : child ∈ site.childrenFrom index nodes) :
      child.node ∈ nodes := by
    induction nodes generalizing index with
    | nil => cases h
    | cons node nodes ih =>
        rcases List.mem_cons.1 h with rfl | h
        · exact List.mem_cons_self
        · exact List.mem_cons_of_mem _ (ih (index + 1) h)
  exact hfrom _ 0 h

namespace Walker

/-! ## Calls for nodes -/

def Task.node : Task → Node
  | .enter site => site.node
  | .leave site => site.node

def CallBelow (subscribers : Kind → List Check) (source : Source) (node : Node)
    (call : Check × Notification) : Prop :=
  ∃ site : Site, site.node ∈ node.preorder ∧ call.1 ∈ subscribers site.node.kind ∧
    (call.2 = .enter source site ∨ call.2 = .leave source site)

section Calls

variable {subscribers : Kind → List Check} {source : Source} {call : Check × Notification}

theorem CallBelow.of_child {node child : Node} (h : CallBelow subscribers source child call)
    (hchild : child ∈ node.children) : CallBelow subscribers source node call := by
  obtain ⟨site, hsite, hcall⟩ := h
  refine ⟨site, ?_, hcall⟩
  rw [Node.preorder_eq]
  exact List.mem_cons_of_mem _ (List.mem_flatMap.2 ⟨child, hchild, hsite⟩)

theorem mem_calls_for {site : Site} {notification : Notification}
    {done : List (Check × Notification)}
    (hnotification : notification = .enter source site ∨ notification = .leave source site)
    (h : call ∈ ((subscribers site.node.kind).map fun check => (check, notification)).reverse ++
      done) : call ∈ done ∨ CallBelow subscribers source site.node call := by
  rcases List.mem_append.1 h with hnew | hdone
  · obtain ⟨check, hcheck, rfl⟩ := List.mem_map.1 (List.mem_reverse.1 hnew)
    exact .inr ⟨site, by simp [Node.preorder_eq site.node], hcheck, hnotification⟩
  · exact .inl hdone

theorem mem_schedule {fuel : Nat} {stack : List Task} {done : List (Check × Notification)}
    (h : call ∈ schedule subscribers source fuel stack done) :
    call ∈ done ∨ ∃ task ∈ stack, CallBelow subscribers source task.node call := by
  induction fuel generalizing stack done with
  | zero => exact .inl (List.mem_reverse.1 (by simpa [schedule] using h))
  | succ fuel ih =>
      cases stack with
      | nil => exact .inl (List.mem_reverse.1 (by simpa [schedule] using h))
      | cons task stack =>
          cases task with
          | leave site =>
              rcases ih h with hdone | ⟨task, htask, hbelow⟩
              · exact (mem_calls_for (.inr rfl) hdone).imp_right fun hbelow =>
                  ⟨.leave site, List.mem_cons_self, hbelow⟩
              · exact .inr ⟨task, List.mem_cons_of_mem _ htask, hbelow⟩
          | enter site =>
              rcases ih h with hdone | ⟨task, htask, hbelow⟩
              · exact (mem_calls_for (.inl rfl) hdone).imp_right fun hbelow =>
                  ⟨.enter site, List.mem_cons_self, hbelow⟩
              · rcases List.mem_append.1 htask with hmem | hmem
                · obtain ⟨child, hchild, rfl⟩ := List.mem_map.1 hmem
                  exact .inr ⟨.enter site, List.mem_cons_self,
                    hbelow.of_child (Site.node_mem_of_mem_children hchild)⟩
                · rcases List.mem_cons.1 hmem with rfl | hmem
                  · exact .inr ⟨.enter site, List.mem_cons_self, hbelow⟩
                  · exact .inr ⟨task, List.mem_cons_of_mem _ hmem, hbelow⟩

end Calls

theorem mem_calls {walker : Walker} {source : Source} {call : Check × Notification}
    (h : call ∈ walker.calls source) :
    (call.1 ∈ walker.checks ∧ (call.2 = .begin source { node := source.root } ∨
      call.2 = .finish source { node := source.root })) ∨
    CallBelow walker.subscribers source source.root call := by
  simp only [calls, List.mem_append] at h
  rcases h with (h | h) | h
  · obtain ⟨check, hcheck, rfl⟩ := List.mem_map.1 h
    exact .inl ⟨hcheck, .inl rfl⟩
  · rcases mem_schedule h with hdone | ⟨task, htask, hbelow⟩
    · cases hdone
    · obtain rfl := List.mem_singleton.1 htask
      exact .inr hbelow
  · obtain ⟨check, hcheck, rfl⟩ := List.mem_map.1 h
    exact .inl ⟨hcheck, .inr rfl⟩

/-! ## Faults -/

/-- The fault that a call ends in, if any: the one that the check answers with, unless the
check has something to say and nobody to say it to. -/
def faultOf (walker : Walker) (call : Check × Notification) : Option Fault :=
  if (call.1.respond call.2).remarks = [] ∨ call.1.identity ∈ walker.bound then
    (call.1.respond call.2).fault
  else some (.noSink call.1.name)

theorem isBound_iff {walker : Walker} {check : Check} :
    walker.isBound check = true ↔ check.identity ∈ walker.bound :=
  List.contains_iff_mem

theorem faultOf_withCollector (walker : Walker) (collector : Collector)
    (call : Check × Notification) :
    { walker with collector }.faultOf call = walker.faultOf call :=
  rfl

theorem faultOf_of_isBound {walker : Walker} {check : Check} (h : walker.isBound check = true)
    (notification : Notification) :
    walker.faultOf (check, notification) = (check.respond notification).fault :=
  if_pos (.inr (isBound_iff.1 h))

theorem notify_eq (walker : Walker) (check : Check) (notification : Notification) :
    ∃ collector, walker.notify check notification =
      ({ walker with collector }, walker.faultOf (check, notification)) := by
  unfold faultOf notify
  dsimp only
  by_cases hsilent : (check.respond notification).remarks = []
  · rw [if_pos (List.isEmpty_iff.2 hsilent), if_pos (.inl hsilent)]
    exact ⟨walker.collector, rfl⟩
  · rw [if_neg (mt List.isEmpty_iff.1 hsilent)]
    by_cases hbound : check.identity ∈ walker.bound
    · rw [if_pos (isBound_iff.2 hbound), if_pos (.inr hbound)]
      exact ⟨_, rfl⟩
    · rw [if_neg (mt isBound_iff.1 hbound), if_neg (by simp [hsilent, hbound])]
      exact ⟨walker.collector, rfl⟩

/-! ## Files -/

def textOf (fs : Files.FileSystem) (file : String) : Option String → Except Fault String
  | some text => .ok text
  | none => readText fs (Files.Path.ofString file)

def reportOf (file : String) (outcome : Step Unit × Option Source) :
    Walker × List Call × FileReport :=
  match outcome.1.result with
  | .ok () =>
      (outcome.1.walker, outcome.1.calls,
        ⟨file, outcome.2, none, outcome.1.walker.collector.diagnostics⟩)
  | .error fault =>
      (outcome.1.walker.collectFault fault, outcome.1.calls,
        ⟨file, outcome.2, some fault,
          (outcome.1.walker.collectFault fault).collector.diagnostics⟩)

theorem process_eq (walker : Walker) (fs : Files.FileSystem) (file : String)
    (text : Option String) : walker.process fs file text =
      reportOf file ((walker.turnTo file).walkText file (textOf fs file text)) := by
  unfold process
  rcases text with _ | text
  all_goals
    simp only [textOf]
    generalize (walker.turnTo file).walkText file _ = outcome
    rfl

theorem process_of_ok (walker : Walker) (fs : Files.FileSystem) {file text : String}
    {source : Source} (hparse : Source.parse text (some file) = .ok source) :
    walker.process fs file (some text) =
      reportOf file ((walker.turnTo file).walk source, some source) := by
  rw [process_eq, textOf]
  unfold walkText
  simp only [hparse]

theorem process_of_error (walker : Walker) (fs : Files.FileSystem) {file text : String}
    {error : SourceError} (hparse : Source.parse text (some file) = .error error) :
    walker.process fs file (some text) =
      reportOf file (⟨walker.turnTo file, [], .error (.source error)⟩, none) := by
  rw [process_eq, textOf]
  unfold walkText
  simp only [hparse]

/-! ## Silence -/

theorem notify_of_silent {walker : Walker} {check : Check} {notification : Notification}
    (h : check.respond notification = .silent) :
    walker.notify check notification = (walker, none) := by
  simp [notify, h, Reaction.silent]

theorem notifyAll_of_silent (walker : Walker) {calls : List (Check × Notification)}
    (h : ∀ call ∈ calls, call.1.respond call.2 = .silent) (done : List Call) :
    ∃ made, walker.notifyAll done calls = ⟨walker, made, .ok ()⟩ := by
  induction calls generalizing done with
  | nil => exact ⟨_, rfl⟩
  | cons call calls ih =>
      have hfirst := @notify_of_silent walker _ _ (h call List.mem_cons_self)
      obtain ⟨made, hmade⟩ := ih (fun other hother => h other (List.mem_cons_of_mem _ hother))
        (⟨call.1.identity, call.2⟩ :: done)
      refine ⟨made, ?_⟩
      rw [notifyAll, hfirst]
      exact hmade

theorem process_of_silent {walker : Walker} (fs : Files.FileSystem) {file text : String}
    {source : Source} (hparse : Source.parse text (some file) = .ok source)
    (h : ∀ call ∈ walker.calls source, call.1.respond call.2 = .silent) :
    (walker.process fs file (some text)).2.2 = ⟨file, some source, none, []⟩ := by
  obtain ⟨made, hmade⟩ := (walker.turnTo file).notifyAll_of_silent h []
  have hwalk : (walker.turnTo file).walk source = ⟨walker.turnTo file, made, .ok ()⟩ := hmade
  rw [process_of_ok walker fs hparse, hwalk]
  rfl

end Walker

end GrammarLint
