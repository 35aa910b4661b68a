import GrammarLint.Proofs.Faultless
import GrammarLint.Proofs.Sites

/-!
# Faults of a file

Processing a file makes the calls of its walk up to the first that ends in a fault, and
collects what they log.  A fault, whether of reading, of parsing or of a check, becomes
one diagnostic after what was logged, and ends the work on that file.  Nothing of an
earlier file is left.
-/

namespace GrammarLint.Walker

open Files

/-! ## What is logged -/

def logged (walker : Walker) (file : String) (call : Check × Notification) : List Diagnostic :=
  if walker.isBound call.1 then
    (call.1.respond call.2).remarks.map (diagnosticOf file call.1)
  else []

def gather (walker : Walker) (diagnostics : List Diagnostic) : Walker :=
  { walker with
    collector :=
      { walker.collector with
        diagnostics := walker.collector.diagnostics ++ diagnostics } }

section Logged

variable (walker : Walker)

theorem gather_nil : walker.gather [] = walker := by
  simp [gather]

theorem gather_gather (first second : List Diagnostic) :
    (walker.gather first).gather second = walker.gather (first ++ second) := by
  simp [gather]

theorem collect_eq_gather (check : Check) (remarks : List Remark) :
    walker.collect check remarks =
      walker.gather (remarks.map (diagnosticOf walker.collector.file check)) := by
  induction remarks generalizing walker with
  | nil => exact walker.gather_nil.symm
  | cons remark remarks ih =>
      have hfirst : walker.collect check [remark] =
          walker.gather [diagnosticOf walker.collector.file check remark] := rfl
      calc
        walker.collect check (remark :: remarks)
            = (walker.collect check [remark]).collect check remarks := rfl
        _ = _ := by
          rw [hfirst, ih, gather_gather]
          rfl

theorem notify_eq_gather (call : Check × Notification) :
    walker.notify call.1 call.2 =
      (walker.gather (walker.logged walker.collector.file call), walker.faultOf call) := by
  have hwalker : (walker.notify call.1 call.2).1 =
      walker.gather (walker.logged walker.collector.file call) := by
    unfold notify logged
    obtain ⟨remarks, fault⟩ := call.1.respond call.2
    cases remarks with
    | nil => simp [gather_nil]
    | cons remark remarks =>
        cases walker.isBound call.1 with
        | true => exact walker.collect_eq_gather call.1 _
        | false => exact walker.gather_nil.symm
  obtain ⟨collector, hnotify⟩ := walker.notify_eq call.1 call.2
  refine Prod.ext hwalker ?_
  rw [hnotify]

theorem faultOf_gather (diagnostics : List Diagnostic) (call : Check × Notification) :
    (walker.gather diagnostics).faultOf call = walker.faultOf call :=
  walker.faultOf_withCollector _ call

theorem notifyAll_append {before : List (Check × Notification)}
    (h : ∀ call ∈ before, walker.faultOf call = none) (done : List Call)
    (rest : List (Check × Notification)) :
    walker.notifyAll done (before ++ rest) =
      (walker.gather (before.flatMap (walker.logged walker.collector.file))).notifyAll
        ((before.map recordOf).reverse ++ done) rest := by
  induction before generalizing walker done with
  | nil => simp [gather_nil]
  | cons call before ih =>
      rw [List.forall_mem_cons] at h
      have hlater : ∀ later ∈ before,
          (walker.gather (walker.logged walker.collector.file call)).faultOf later = none := by
        intro later hmem
        rw [faultOf_gather]
        exact h.2 later hmem
      rw [List.cons_append, notifyAll, notify_eq_gather, h.1]
      dsimp only
      rw [ih _ hlater, gather_gather, List.flatMap_cons, List.map_cons, List.reverse_cons,
        List.append_assoc]
      rfl

theorem notifyAll_of_faultless {calls : List (Check × Notification)}
    (h : ∀ call ∈ calls, walker.faultOf call = none) :
    walker.notifyAll [] calls =
      ⟨walker.gather (calls.flatMap (walker.logged walker.collector.file)),
        calls.map recordOf, .ok ()⟩ := by
  have hall := walker.notifyAll_append h [] []
  rw [List.append_nil] at hall
  rw [hall, notifyAll, List.append_nil, List.reverse_reverse]

theorem notifyAll_of_fault {before after : List (Check × Notification)}
    {call : Check × Notification} {fault : Fault}
    (hbefore : ∀ earlier ∈ before, walker.faultOf earlier = none)
    (hfault : walker.faultOf call = some fault) :
    walker.notifyAll [] (before ++ call :: after) =
      ⟨walker.gather ((before ++ [call]).flatMap (walker.logged walker.collector.file)),
        (before ++ [call]).map recordOf, .error fault⟩ := by
  rw [notifyAll_append walker hbefore, notifyAll, notify_eq_gather, faultOf_gather, hfault]
  simp only [gather_gather, List.flatMap_append, List.flatMap_cons, List.flatMap_nil,
    List.append_nil, List.reverse_cons, List.reverse_reverse, List.map_append, List.map_cons,
    List.map_nil]
  rfl

end Logged

/-! ## What comes of a file -/

def failure (file : String) (fault : Fault) : Diagnostic :=
  { file, line := 0, message := "Got an exception - " ++ fault.message
    check := "GrammarWalker", severity := .error }

/-- The calls that are made for a file with the given text, and its report.  The text may
not have been read; it may not be that of a grammar; all the calls of the walk may be made;
or they are made up to and including the first that ends in a fault. -/
inductive Concludes (walker : Walker) (file : String) (text : Except Fault String) :
    List Call × FileReport → Prop where
  | unread {fault : Fault} (htext : text = .error fault) :
      Concludes walker file text
        ([], ⟨file, none, some fault, [failure (fileLabel (some file)) fault]⟩)
  | unparsed {chars : String} {error : SourceError} (htext : text = .ok chars)
      (hparse : Source.parse chars (some file) = .error error) :
      Concludes walker file text
        ([], ⟨file, none, some (.source error),
          [failure (fileLabel (some file)) (.source error)]⟩)
  | finished {chars : String} {source : Source} (htext : text = .ok chars)
      (hparse : Source.parse chars (some file) = .ok source)
      (hnone : ∀ call ∈ walker.order source, walker.faultOf call = none) :
      Concludes walker file text
        ((walker.order source).map recordOf,
          ⟨file, some source, none,
            (walker.order source).flatMap (walker.logged (fileLabel (some file)))⟩)
  | stopped {chars : String} {source : Source} {before after : List (Check × Notification)}
      {call : Check × Notification} {fault : Fault} (htext : text = .ok chars)
      (hparse : Source.parse chars (some file) = .ok source)
      (horder : walker.order source = before ++ call :: after)
      (hbefore : ∀ earlier ∈ before, walker.faultOf earlier = none)
      (hfault : walker.faultOf call = some fault) :
      Concludes walker file text
        ((before ++ [call]).map recordOf,
          ⟨file, some source, some fault,
            (before ++ [call]).flatMap (walker.logged (fileLabel (some file))) ++
              [failure (fileLabel (some file)) fault]⟩)

theorem faultOf_turnTo (walker : Walker) (file : String) (call : Check × Notification) :
    (walker.turnTo file).faultOf call = walker.faultOf call :=
  walker.faultOf_withCollector _ call

theorem concludes_reportOf (walker : Walker) (file : String) (text : Except Fault String) :
    Concludes walker file text
      (reportOf file ((walker.turnTo file).walkText file text)).2 := by
  unfold walkText
  cases htext : text with
  | error fault => exact .unread rfl
  | ok chars =>
      dsimp only
      cases hparse : Source.parse chars (some file) with
      | error error => exact .unparsed rfl hparse
      | ok source =>
          dsimp only [walk]
          rw [calls_eq_order]
          have hmakes := (walker.turnTo file).makes_notifyAll ((walker.turnTo file).order source)
          generalize hstep :
            (walker.turnTo file).notifyAll [] ((walker.turnTo file).order source) = step at hmakes
          cases hmakes with
          | all collector hall =>
              rw [notifyAll_of_faultless _ hall] at hstep
              rw [← hstep]
              simp only [faultOf_turnTo] at hall
              exact .finished rfl hparse hall
          | upTo collector hcalls hbefore hfault =>
              rw [hcalls, notifyAll_of_fault _ hbefore hfault] at hstep
              rw [← hstep]
              simp only [faultOf_turnTo] at hbefore hfault
              exact .stopped rfl hparse hcalls hbefore hfault

theorem process_withCollector (walker : Walker) (collector : Collector) (fs : FileSystem)
    (file : String) (text : Option String) :
    ({ walker with collector }.process fs file text).2 = (walker.process fs file text).2 := by
  rw [process_eq, process_eq]
  rfl

/-- Processing a file always comes to a report.  It holds what was logged for this file,
in order and under its name, up to the first fault; after it, for a fault of reading, of
parsing or of a check, the one diagnostic of that fault, and no call is made any more.
What was collected before has no part in it.  The checks may be any, and may remember
what they were told: in a walk none is told the same thing twice, so that what it is told
also says what it was told before. -/
theorem process_concludes (walker : Walker) (fs : FileSystem) (file : String)
    (text : Option String) :
    Concludes walker file (textOf fs file text) (walker.process fs file text).2 ∧
      (∀ collector,
        ({ walker with collector }.process fs file text).2 = (walker.process fs file text).2) ∧
      (Reachable walker → ∀ source, ((walker.order source).map recordOf).Nodup) := by
  refine ⟨?_, ?_, ?_⟩
  · rw [process_eq]
    exact walker.concludes_reportOf file _
  · intro collector
    exact walker.process_withCollector collector fs file text
  · intro hreachable source
    exact hreachable.sound.nodup_order source

def Concludes.sampleCheck (serial : Nat) : Check :=
  { identity := .given serial, name := "Recorder", severity := .warning
    respond := fun notification =>
      match notification with
      | .enter _ site =>
          if site.node.kind = .tokens then
            { remarks := [⟨site.node.line, "seen"⟩], fault := some (.stated "boom") }
          else .silent
      | _ => .silent }

def Concludes.sampleOperations : List Operation :=
  [.offer (.check (sampleCheck 0)), .offer (.check (sampleCheck 1))]

def Concludes.sampleWalker : Walker :=
  sampleOperations.foldl Operation.run
    { collector := ⟨"old.g", [⟨"old.g", 7, "stale", "Recorder", .info⟩]⟩ }

def Concludes.sampleText : String :=
  "grammar t;\ntokens \x7b A; \x7d\nr : A ;"

theorem process_concludes_sample :
    Reachable Concludes.sampleWalker ∧
    (∀ source, ((Concludes.sampleWalker.order source).map recordOf).Nodup) ∧
    Concludes Concludes.sampleWalker "t.g" (.ok Concludes.sampleText)
      (Concludes.sampleWalker.process Reachable.sampleFiles "t.g"
        (some Concludes.sampleText)).2 ∧
    (Concludes.sampleWalker.process Reachable.sampleFiles "t.g"
      (some Concludes.sampleText)).2.2.diagnostics =
        [⟨"t.g", 2, "seen", "Recorder", .warning⟩,
          ⟨"t.g", 0, "Got an exception - boom", "GrammarWalker", .error⟩] := by
  have hreachable : Reachable Concludes.sampleWalker := by
    refine (Reachable.fresh _).foldl ?_
    intro operation hoperation walker
    simp only [Concludes.sampleOperations, List.mem_cons, List.not_mem_nil, or_false] at hoperation
    rcases hoperation with rfl | rfl
    all_goals
      intro serial hserial
      cases hserial
  obtain ⟨hconcludes, -, hdistinct⟩ :=
    process_concludes Concludes.sampleWalker Reachable.sampleFiles "t.g"
      (some Concludes.sampleText)
  exact ⟨hreachable, hdistinct hreachable, hconcludes, by decide +kernel⟩

end GrammarLint.Walker
