import GrammarLint.Proofs.Checkable
import GrammarLint.Proofs.Registration

/-!
# Checks without faults

The checks that are set up from configurations end in no fault on a source that was
parsed.  So a file has a diagnostic of the walker itself exactly if its text is not
that of a grammar, and then it has no other.
-/

namespace GrammarLint

open Files Grammar

/-! ## What conventions say of a source -/

theorem Delimits.judge_fault {source : Source} {sign : Mark} {delimiter : Node}
    (h : Delimits source sign delimiter) (symbol : String) :
    (Check.Delimiters.judge (some source) symbol delimiter).fault = none := by
  obtain ⟨token, htoken⟩ := h.before
  simp only [Check.Delimiters.judge, htoken]
  split <;> rfl

theorem Reaction.followedBy_fault {first second : Reaction} (hfirst : first.fault = none)
    (hsecond : second.fault = none) : (first.followedBy second).fault = none := by
  simp only [followedBy, hfirst, hsecond]

theorem Checkable.enter_fault {source : Source} {convention : Convention} {site : Site}
    (h : Checkable source) (settings : Settings) (hsite : site.node ∈ source.root.preorder)
    (hkind : site.node.kind ∈ convention.kinds) :
    (convention.enter settings (some source) site).fault = none := by
  cases convention with
  | delimiters =>
      obtain ⟨colon, semicolon, hcolon, hsemicolon, hbefore, hafter⟩ :=
        h.rule site.node hsite (List.mem_singleton.1 hkind)
      simp only [Convention.enter, Check.Delimiters.enter, hcolon, hsemicolon,
        Check.Delimiters.judgeIfPresent]
      exact Reaction.followedBy_fault (hbefore.judge_fault _) (hafter.judge_fault _)
  | _ => rfl

theorem Convention.name_ne_walkerName (convention : Convention) :
    convention.name ≠ walkerName := by
  cases convention <;> decide

namespace Walker

/-! ## Where remarks go -/

def AllBound (walker : Walker) : Prop :=
  ∀ check ∈ walker.checks, walker.isBound check = true

section Bound

variable {walker : Walker}

theorem isBound_bind_of_isBound {check other : Check} (h : walker.isBound other = true) :
    (walker.bind check).isBound other = true := by
  unfold bind
  split
  · exact h
  · simp_all [isBound]

theorem AllBound.bind (h : AllBound walker) (check : Check) : AllBound (walker.bind check) := by
  intro other hother
  rw [checks, (sameTables_bind walker check).descriptors] at hother
  exact isBound_bind_of_isBound (h other hother)

theorem AllBound.add (h : AllBound walker) (check : Check) :
    AllBound (walker.add check).walker := by
  have hbind := h.bind check
  have hadds := walker.adds_add check
  generalize walker.add check = step at hadds
  cases hadds with
  | known => exact h
  | unstarted => exact hbind
  | refused => exact hbind
  | entered =>
      intro other hother
      simp only [checks, enroll, List.map_append, List.map_cons, List.map_nil,
        List.mem_append, List.mem_singleton] at hother
      rcases hother with hother | rfl
      · exact hbind other hother
      · exact isBound_bind other walker

theorem AllBound.setup (h : AllBound walker) (fs : FileSystem) (config : CheckConfig) :
    AllBound (walker.setup fs config).walker := by
  simp only [Walker.setup]
  cases Catalogue.standard.find? config.name with
  | none => exact h
  | some convention =>
      have hcounted : AllBound { walker with serial := walker.serial + 1 } := h
      exact (hcounted.bind _).add _

theorem AllBound.setupAll (h : AllBound walker) (fs : FileSystem) (configs : List CheckConfig) :
    AllBound (walker.setupAll fs configs).walker :=
  setupAll_preserves (fun config _ _ hwalker => hwalker.setup fs config) h

end Bound

/-! ## What is collected -/

def diagnosticOf (file : String) (check : Check) (remark : Remark) : Diagnostic :=
  ⟨file, remark.line, remark.message, check.name, check.severity⟩

theorem collect_diagnostics (walker : Walker) (check : Check) (remarks : List Remark) :
    (walker.collect check remarks).collector.diagnostics =
      walker.collector.diagnostics ++ remarks.map (diagnosticOf walker.collector.file check) := by
  induction remarks generalizing walker with
  | nil => simp [collect]
  | cons remark remarks ih =>
      have hfirst := ih (walker.collect check [remark])
      simp only [collect, List.foldl_cons, List.foldl_nil] at hfirst ⊢
      rw [hfirst]
      simp [Collector.add, diagnosticOf]

section Collected

variable {walker : Walker} {diagnostic : Diagnostic}

theorem mem_notify {check : Check} {notification : Notification}
    (h : diagnostic ∈ (walker.notify check notification).1.collector.diagnostics) :
    diagnostic ∈ walker.collector.diagnostics ∨ diagnostic.check = check.name := by
  unfold notify at h
  dsimp only at h
  split at h
  · exact .inl h
  · split at h
    · rw [collect_diagnostics, List.mem_append, List.mem_map] at h
      rcases h with h | ⟨remark, -, rfl⟩
      · exact .inl h
      · exact .inr rfl
    · exact .inl h

theorem mem_notifyAll {done : List Call} {calls : List (Check × Notification)}
    (h : diagnostic ∈ (walker.notifyAll done calls).walker.collector.diagnostics) :
    diagnostic ∈ walker.collector.diagnostics ∨ ∃ call ∈ calls, diagnostic.check = call.1.name := by
  induction calls generalizing walker done with
  | nil => exact .inl h
  | cons call calls ih =>
      have hcalled {told : Walker} (htold : told = (walker.notify call.1 call.2).1)
          (hmember : diagnostic ∈ told.collector.diagnostics) :
          diagnostic ∈ walker.collector.diagnostics ∨
            ∃ called ∈ call :: calls, diagnostic.check = called.1.name := by
        rw [htold] at hmember
        exact (mem_notify hmember).imp_right fun hname => ⟨call, List.mem_cons_self, hname⟩
      rw [notifyAll] at h
      generalize walker.notify call.1 call.2 = told at h hcalled
      obtain ⟨told, _ | fault⟩ := told
      · rcases ih h with hearlier | ⟨later, hlater, hname⟩
        · exact hcalled rfl hearlier
        · exact .inr ⟨later, List.mem_cons_of_mem _ hlater, hname⟩
      · exact hcalled rfl h

end Collected

/-! ## Walks and files -/

/-- The checks of the walker are those of conventions, which it tells only about the
kinds of the convention, and what they say is collected. -/
structure Reliable (walker : Walker) : Prop where
  bound : AllBound walker
  staffed : ∃ fs configs, Staffed fs configs walker
  subscribed : ∀ kind, ∀ check ∈ walker.subscribers kind, check ∈ walker.checks

section Reliable

variable {walker : Walker}

theorem Reliable.withCollector (h : Reliable walker) (collector : Collector) :
    Reliable { walker with collector } := by
  obtain ⟨hbound, ⟨fs, configs, hstaffed⟩, hsubscribed⟩ := h
  exact ⟨hbound, ⟨fs, configs, hstaffed.of_sameTables ⟨rfl, rfl, rfl⟩⟩, hsubscribed⟩

theorem reliable_setupAll (collector : Collector) (fs : FileSystem)
    (configs : List CheckConfig) : Reliable (setupAll { collector } fs configs).walker := by
  have hreachable : Reachable (setupAll { collector } fs configs).walker :=
    (Reachable.fresh collector).after (.setupAll fs configs) trivial
  refine ⟨?_, ⟨fs, configs, ?_⟩, ?_⟩
  · have hempty : AllBound { collector } := by simp [AllBound, checks]
    exact hempty.setupAll fs configs
  · have hempty : Staffed fs configs { collector } := staffed_empty.of_sameTables ⟨rfl, rfl, rfl⟩
    exact hempty.setupAll (List.Subset.refl _)
  · intro kind check hcheck
    rw [hreachable.sound.dispatch] at hcheck
    obtain ⟨descriptor, hdescriptor, rfl⟩ := List.mem_map.1 hcheck
    exact List.mem_map_of_mem (List.mem_filter.1 hdescriptor).1

theorem Reliable.mem_checks (h : Reliable walker) {source : Source}
    {call : Check × Notification} (hcall : call ∈ walker.calls source) :
    call.1 ∈ walker.checks := by
  rcases mem_calls hcall with ⟨hcheck, -⟩ | ⟨site, -, hcheck, -⟩
  · exact hcheck
  · exact h.subscribed _ _ hcheck

theorem Reliable.isBound (h : Reliable walker) {source : Source} {call : Check × Notification}
    (hcall : call ∈ walker.calls source) : walker.isBound call.1 = true :=
  h.bound _ (h.mem_checks hcall)

theorem Reliable.name_ne_walkerName (h : Reliable walker) {check : Check}
    (hcheck : check ∈ walker.checks) : check.name ≠ walkerName := by
  obtain ⟨fs, configs, hstaffed⟩ := h.staffed
  obtain ⟨convention, settings, config, -, identity, -, -, rfl⟩ := hstaffed.checks check hcheck
  exact convention.name_ne_walkerName

theorem Reliable.respond_fault (h : Reliable walker) {source : Source}
    (hsource : Checkable source) {call : Check × Notification}
    (hcall : call ∈ walker.calls source) : (call.1.respond call.2).fault = none := by
  obtain ⟨fs, configs, hstaffed⟩ := h.staffed
  rcases mem_calls hcall with ⟨hcheck, hcall⟩ | ⟨site, hsite, hcheck, hcall⟩
  · obtain ⟨convention, settings, hemployed⟩ := hstaffed.checks _ hcheck
    rw [hemployed.respond_other]
    · rfl
    · rcases hcall with hcall | hcall <;> simp [hcall]
  · obtain ⟨convention, settings, hemployed, hkind⟩ := hstaffed.subscribers _ _ hcheck
    rcases hcall with hcall | hcall
    · rw [hcall, hemployed.respond_enter]
      exact hsource.enter_fault settings hsite hkind
    · rw [hemployed.respond_other (by simp [hcall])]
      rfl

theorem Reliable.walk_result (h : Reliable walker) {source : Source}
    (hsource : Checkable source) : (walker.walk source).result = .ok () := by
  have hnone : ∀ call ∈ walker.calls source, walker.faultOf call = none := by
    intro call hcall
    rw [faultOf_of_isBound (h.isBound hcall)]
    exact h.respond_fault hsource hcall
  have hmakes := walker.makes_notifyAll (walker.calls source)
  rw [walk]
  generalize walker.notifyAll [] (walker.calls source) = step at hmakes
  cases hmakes with
  | all collector => rfl
  | @upTo before after call fault _ hcalls _ hfault =>
      have hcall : call ∈ walker.calls source := by simp [hcalls]
      cases (hnone call hcall).symm.trans hfault

theorem Reliable.process_names (h : Reliable walker) (fs : FileSystem) {file text : String}
    {source : Source} (hparse : Source.parse text (some file) = .ok source) :
    ∀ diagnostic ∈ (walker.process fs file (some text)).2.2.diagnostics,
      diagnostic.check ≠ walkerName := by
  have hturned : Reliable (walker.turnTo file) := h.withCollector _
  have hresult := hturned.walk_result (Source.checkable hparse)
  intro diagnostic hmember
  rw [process_of_ok walker fs hparse, reportOf] at hmember
  simp only [hresult] at hmember
  rcases mem_notifyAll hmember with hearlier | ⟨call, hcall, hname⟩
  · cases hearlier
  · rw [hname]
    exact hturned.name_ne_walkerName (hturned.mem_checks hcall)

theorem diagnostics_of_error (walker : Walker) (fs : FileSystem) {file text : String}
    {error : SourceError} (hparse : Source.parse text (some file) = .error error) :
    (walker.process fs file (some text)).2.2.diagnostics =
      [⟨fileLabel (some file), 0, faultMessage (.source error), walkerName, .error⟩] := by
  rw [process_of_error walker fs hparse]
  rfl

end Reliable

/-- The checks that are set up end in no fault on a parsed source.  What is said at any
call is collected; on every source that is parsed the checks find what they rely on, and
the walk is finished.  So a file has a diagnostic of the walker itself exactly if its text
cannot be parsed, and then it has no other.  This is so whatever was collected before, and
also of the checks that were set up before one that failed. -/
theorem setupAll_faultless (collector later : Collector) (fs : FileSystem)
    (configs : List CheckConfig) :
    let walker := { (setupAll { collector } fs configs).walker with collector := later }
    (∀ source, ∀ call ∈ walker.calls source, walker.isBound call.1 = true) ∧
    (∀ text file source, Source.parse text file = .ok source →
      Checkable source ∧ (walker.walk source).result = .ok ()) ∧
    ∀ files file text,
      let diagnostics := (walker.process files file (some text)).2.2.diagnostics
      ((∃ diagnostic ∈ diagnostics, diagnostic.check = walkerName) ↔
        ∃ error, Source.parse text (some file) = .error error) ∧
      ∀ error, Source.parse text (some file) = .error error →
        diagnostics =
          [⟨fileLabel (some file), 0, faultMessage (.source error), walkerName, .error⟩] := by
  intro walker
  have hreliable : Reliable walker := (reliable_setupAll collector fs configs).withCollector later
  refine ⟨fun _ _ => hreliable.isBound, ?_, ?_⟩
  · intro text file source hparse
    have hsource := Source.checkable hparse
    exact ⟨hsource, hreliable.walk_result hsource⟩
  · intro files file text
    refine ⟨?_, fun error hparse => walker.diagnostics_of_error files hparse⟩
    cases hparse : Source.parse text (some file) with
    | error error => simp [walker.diagnostics_of_error files hparse]
    | ok source => simpa using hreliable.process_names files hparse

def Checkable.sampleConfigs : List CheckConfig :=
  [{ name := "RuleColonSemicolonCheck", kinds := ["RULE"] },
    { name := "TokensSpaceCheck", options := [(spacedOption, .bool false)] }]

def Checkable.sampleWalker : Walker :=
  (setupAll {} Reachable.sampleFiles Checkable.sampleConfigs).walker

def Checkable.sampleText : String :=
  "grammar g; tokens \x7b A = 'a'; B; \x7d r options \x7b k = 2; \x7d : A | ;"

theorem setupAll_faultless_sample :
    (setupAll {} Reachable.sampleFiles Checkable.sampleConfigs).result =
      .ok [.delimiters, .tokensSpacing] ∧
    (∃ source, Source.parse Checkable.sampleText (some "g.g") = .ok source ∧
      (Checkable.sampleWalker.walk source).result = .ok ()) ∧
    (Checkable.sampleWalker.process Reachable.sampleFiles "g.g"
      (some Checkable.sampleText)).2.2.diagnostics.map (·.check) =
        ["TokensSpaceCheck", "TokensSpaceCheck", "RuleColonSemicolonCheck",
          "RuleColonSemicolonCheck"] ∧
    ∃ error, Source.parse "grammar g" (some "g.g") = .error error ∧
      (Checkable.sampleWalker.process Reachable.sampleFiles "g.g"
        (some "grammar g")).2.2.diagnostics =
          [⟨"g.g", 0, faultMessage (.source error), walkerName, .error⟩] := by
  obtain ⟨-, hparsed, hfiles⟩ :=
    setupAll_faultless {} Checkable.sampleWalker.collector Reachable.sampleFiles
      Checkable.sampleConfigs
  refine ⟨rfl, ?_, ?_, ?_⟩
  · have hsome : (Source.parse Checkable.sampleText (some "g.g")).toOption.isSome = true := by
      decide +kernel
    obtain ⟨source, hsource⟩ := Source.exists_of_isSome hsome
    exact ⟨source, hsource, (hparsed _ _ source hsource).2⟩
  · decide +kernel
  · have hnone : (Source.parse "grammar g" (some "g.g")).toOption.isSome = false := by
      decide +kernel
    cases hparse : Source.parse "grammar g" (some "g.g") with
    | ok source =>
        rw [hparse] at hnone
        cases hnone
    | error error => exact ⟨error, rfl, (hfiles _ _ _).2 error hparse⟩

end Walker

end GrammarLint
