import GrammarLint.Proofs.Boundary

/-!
# Files on their own

What is said of a file does not depend on the files before it.  All that processing
leaves behind is what was collected, which has no part in setting up checks nor in
processing the next file; and a check goes by the source that it was given last, which
in a walk is the one that is walked.
-/

namespace GrammarLint

open Files

def Step.withCollector {α : Type} (step : Step α) (collector : Collector) : Step α :=
  { step with walker := { step.walker with collector } }

def Convention.answer (settings : Settings) (held : Option Source) (convention : Convention) :
    Notification → Reaction
  | .enter _ site => convention.enter settings held site
  | _ => .silent

namespace Walker

/-! ## Setting up, whatever was collected -/

section Setup

variable (walker : Walker) (collector : Collector)

theorem notify_of_mute {check : Check} {notification : Notification}
    (h : (check.respond notification).remarks = []) :
    walker.notify check notification = (walker, (check.respond notification).fault) := by
  simp [notify, h]

theorem bind_withCollector (check : Check) :
    { walker with collector }.bind check = { walker.bind check with collector } := by
  unfold bind
  change (if walker.isBound check = true then _ else _) = _
  split <;> rfl

theorem register_withCollector (check : Check) :
    { walker with collector }.register check = (walker.register check).withCollector collector := by
  unfold register
  change (if walker.isRegistered check = true then _ else _) = _
  split
  · rfl
  · cases resolveKinds check <;> rfl

theorem registerStarted_withCollector {check : Check}
    (h : (check.respond .destroy).remarks = []) :
    { walker with collector }.registerStarted check =
      (walker.registerStarted check).withCollector collector := by
  unfold registerStarted
  rw [register_withCollector]
  obtain ⟨registered, calls, fault | descriptor⟩ := walker.register check
  · simp only [Step.withCollector, notify_of_mute _ h]
  · rfl

theorem add_withCollector {check : Check} (hinit : (check.respond .init).remarks = [])
    (hdestroy : (check.respond .destroy).remarks = []) :
    { walker with collector }.add check = (walker.add check).withCollector collector := by
  unfold add
  change (if walker.isRegistered check = true then _ else _) = _
  split
  · rfl
  · rw [bind_withCollector, notify_of_mute _ hinit, notify_of_mute _ hinit]
    cases (check.respond .init).fault with
    | some fault => rfl
    | none =>
        dsimp only
        rw [registerStarted_withCollector _ _ hdestroy]
        rfl

theorem remarks_convention (fs : FileSystem) (config : CheckConfig) (identity : Identity)
    (convention : Convention) {notification : Notification}
    (h : ∀ source site, notification ≠ .enter source site) :
    ((convention.check fs config identity).respond notification).remarks = [] := by
  simp only [Convention.check]
  split
  · rfl
  · exact absurd rfl (h _ _)
  · rfl

theorem setup_withCollector (fs : FileSystem) (config : CheckConfig) :
    { walker with collector }.setup fs config =
      (walker.setup fs config).withCollector collector := by
  unfold setup
  cases Catalogue.standard.find? config.name with
  | none => rfl
  | some convention =>
      let check := convention.check fs config (.configured walker.serial)
      let counted : Walker := { walker with serial := walker.serial + 1 }
      have hadd : ({ counted with collector }.bind check).add check =
          ((counted.bind check).add check).withCollector collector := by
        rw [bind_withCollector]
        apply add_withCollector
        · exact remarks_convention fs config _ convention (by simp)
        · exact remarks_convention fs config _ convention (by simp)
      exact congrArg (fun step : Step Descriptor =>
        ({ step with result := step.result.map fun _ => convention } : Step Convention)) hadd

theorem setupAll_withCollector (fs : FileSystem) (configs : List CheckConfig) :
    { walker with collector }.setupAll fs configs =
      (walker.setupAll fs configs).withCollector collector := by
  induction configs generalizing walker with
  | nil => rfl
  | cons config configs ih =>
      simp only [setupAll, setup_withCollector]
      obtain ⟨reached, calls, fault | convention⟩ := walker.setup fs config
      · rfl
      · simp only [Step.withCollector, ih]

end Setup

/-! ## Processing, whatever came before -/

/-- A file that is to be processed: the files as they are then, its name, and its text
unless it is to be read. -/
structure Job where
  files : FileSystem
  file : String
  text : Option String := none

def Job.run (walker : Walker) (job : Job) : Walker :=
  (walker.process job.files job.file job.text).1

theorem foldl_run (walker : Walker) (jobs : List Job) :
    ∃ collector, jobs.foldl Job.run walker = { walker with collector } := by
  induction jobs generalizing walker with
  | nil => exact ⟨walker.collector, rfl⟩
  | cons job jobs ih =>
      obtain ⟨collector, hfirst⟩ := walker.process_walker job.files job.file job.text
      obtain ⟨later, hlater⟩ := ih { walker with collector }
      refine ⟨later, ?_⟩
      rw [List.foldl_cons, Job.run, hfirst]
      exact hlater

theorem processAll_reports (walker : Walker) (fs : FileSystem) (files : List String) :
    (walker.processAll fs files).2.2 =
      files.map fun file => (walker.process fs file none).2.2 := by
  induction files generalizing walker with
  | nil => rfl
  | cons file files ih =>
      obtain ⟨collector, hfirst⟩ := walker.process_walker fs file none
      have hrest : ((walker.process fs file none).1.processAll fs files).2.2 =
          files.map fun later => (walker.process fs later none).2.2 := by
        rw [hfirst, ih]
        simp only [process_withCollector]
      rw [List.map_cons, ← hrest]
      rfl

/-! ## What checks hold -/

/-- The source that each check holds after one was given to those that are registered,
where `held` says what they held before. -/
def handOver (walker : Walker) (source : Source) (held : Identity → Option Source)
    (identity : Identity) : Option Source :=
  if identity ∈ walker.checks.map Check.identity then some source else held identity

theorem handOver_of_mem {walker : Walker} {check : Check} (h : check ∈ walker.checks)
    (source : Source) (held : Identity → Option Source) :
    walker.handOver source held check.identity = some source :=
  if_pos (List.mem_map_of_mem h)

theorem Employed.respond_eq {fs : FileSystem} {configs : List CheckConfig} {check : Check}
    {convention : Convention} {settings : Settings}
    (h : Employed fs configs check convention settings) {source : Source}
    {notification : Notification}
    (hsource : ∀ other site, notification = .enter other site → other = source) :
    check.respond notification = convention.answer settings (some source) notification := by
  cases notification with
  | enter other site =>
      rw [hsource other site rfl]
      exact h.respond_enter source site
  | _ => exact h.respond_other (by simp)

theorem Reliable.respond_held {walker : Walker} (h : Reliable walker) {fs : FileSystem}
    {configs : List CheckConfig} (hstaffed : Staffed fs configs walker) {source : Source}
    {call : Check × Notification} (hcall : call ∈ walker.calls source)
    (held : Identity → Option Source) :
    ∃ convention settings, Employed fs configs call.1 convention settings ∧
      call.1.respond call.2 =
        convention.answer settings (walker.handOver source held call.1.identity) call.2 := by
  have hcheck := h.mem_checks hcall
  obtain ⟨convention, settings, hemployed⟩ := hstaffed.checks _ hcheck
  refine ⟨convention, settings, hemployed, ?_⟩
  rw [handOver_of_mem hcheck]
  apply hemployed.respond_eq
  intro other site hnotification
  rcases mem_calls hcall with ⟨-, hwalk⟩ | ⟨site, -, -, hsite⟩
  · rcases hwalk with hwalk | hwalk <;> cases hnotification.symm.trans hwalk
  · rcases hsite with hsite | hsite <;> cases hnotification.symm.trans hsite
    rfl

theorem staffed_setupAll (collector : Collector) (fs : FileSystem) (configs : List CheckConfig) :
    Staffed fs configs (setupAll { collector } fs configs).walker := by
  have hempty : Staffed fs configs { collector } := staffed_empty.of_sameTables ⟨rfl, rfl, rfl⟩
  exact hempty.setupAll (List.Subset.refl _)

/-- Files do not depend on each other.  Whatever files were processed before, a file has
the calls and the report that it has with checks newly set up from the same
configurations; so the diagnostics of several files are those of each, one after the
other.  In a walk every check answers by the source that it holds itself, whatever it held
before. -/
theorem process_isolated (collector other : Collector) (fs : FileSystem)
    (configs : List CheckConfig) (history : List Job) :
    let used := history.foldl Job.run (setupAll { collector } fs configs).walker
    let fresh := (setupAll { collector := other } fs configs).walker
    (∀ files file text, (used.process files file text).2 = (fresh.process files file text).2) ∧
    (∀ files names, (used.processAll files names).2.2.flatMap (·.diagnostics) =
      names.flatMap fun name => (fresh.process files name none).2.2.diagnostics) ∧
    ∀ source held, ∀ call ∈ used.calls source, ∃ convention settings,
      Employed fs configs call.1 convention settings ∧
      call.1.respond call.2 =
        convention.answer settings (used.handOver source held call.1.identity) call.2 := by
  intro used fresh
  obtain ⟨left, hused⟩ : ∃ left, used = { fresh with collector := left } := by
    obtain ⟨left, hleft⟩ := foldl_run (setupAll { collector } fs configs).walker history
    refine ⟨left, hleft.trans ?_⟩
    have hsame := congrArg Step.walker (setupAll_withCollector { collector } other fs configs)
    change fresh = { (setupAll { collector } fs configs).walker with collector := other } at hsame
    rw [hsame]
  have hprocess (files : FileSystem) (file : String) (text : Option String) :
      (used.process files file text).2 = (fresh.process files file text).2 := by
    rw [hused]
    exact fresh.process_withCollector left files file text
  refine ⟨hprocess, ?_, ?_⟩
  · intro files names
    rw [processAll_reports, List.flatMap_map]
    simp only [hprocess]
  · intro source held call hcall
    have hreliable : Reliable used := by
      rw [hused]
      exact (reliable_setupAll other fs configs).withCollector left
    have hstaffed : Staffed fs configs used := by
      rw [hused]
      exact (staffed_setupAll other fs configs).of_sameTables ⟨rfl, rfl, rfl⟩
    exact hreliable.respond_held hstaffed hcall held

/-- A text that is no grammar, and one that both checks of the sample have remarks on. -/
def Job.sampleHistory : List Job :=
  [⟨Reachable.sampleFiles, "bad.g", some "grammar"⟩,
    ⟨Reachable.sampleFiles, "h.g", some "grammar h; tokens \x7b Z='z'; \x7d s : Z ;"⟩]

def Job.sampleWalker : Walker :=
  sampleHistory.foldl Job.run
    (setupAll { collector := {} } Reachable.sampleFiles Checkable.sampleConfigs).walker

theorem process_isolated_sample :
    (Job.sampleWalker.process Reachable.sampleFiles "g.g"
      (some Checkable.sampleText)).2.2.diagnostics.length = 4 ∧
    (Job.sampleWalker.process Reachable.sampleFiles "g.g" (some Checkable.sampleText)).2 =
      ((setupAll { collector := {} } Reachable.sampleFiles Checkable.sampleConfigs).walker.process
        Reachable.sampleFiles "g.g" (some Checkable.sampleText)).2 ∧
    ∃ call ∈ Job.sampleWalker.calls Mirrors.sampleSource, ∃ convention settings,
      Employed Reachable.sampleFiles Checkable.sampleConfigs call.1 convention settings ∧
      call.1.respond call.2 =
        convention.answer settings
          (Job.sampleWalker.handOver Mirrors.sampleSource (fun _ => none) call.1.identity)
          call.2 := by
  have hisolated :=
    process_isolated {} {} Reachable.sampleFiles Checkable.sampleConfigs Job.sampleHistory
  refine ⟨by decide +kernel, hisolated.1 _ _ _, ?_⟩
  have hsome : (Job.sampleWalker.calls Mirrors.sampleSource).isEmpty = false := by
    decide +kernel
  obtain ⟨call, hcall⟩ := List.exists_mem_of_ne_nil _ (List.isEmpty_eq_false_iff.1 hsome)
  exact ⟨call, hcall, hisolated.2.2 _ _ call hcall⟩

end Walker

end GrammarLint
