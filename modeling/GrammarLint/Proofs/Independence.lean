import GrammarLint.Proofs.Isolation
import GrammarLint.Proofs.Rejection

/-!
# Checks on their own

What is reported of a source is, node by node, what each check that is told about the
node reports of it.  The part of one check is what it reports with no other check
beside it, so that it does not depend on which others are set up, nor in what order.
-/

namespace GrammarLint

open Files

/-! ## Reports -/

namespace Descriptor

def reportsAt (descriptor : Descriptor) (source : Source) (file : String) (site : Site) :
    List Diagnostic :=
  (descriptor.check.respond (.enter source site)).remarks.map
    (Walker.diagnosticOf file descriptor.check)

def reports (descriptor : Descriptor) (source : Source) (file : String) : List Diagnostic :=
  source.sites.flatMap fun site =>
    if site.node.kind ∈ descriptor.kinds then descriptor.reportsAt source file site else []

end Descriptor

namespace Walker

def listeners (walker : Walker) (kind : Kind) : List Descriptor :=
  walker.descriptors.filter (kind ∈ ·.kinds)

/-- What is reported of a source, node by node in preorder and of one node check by check,
each diagnostic with the check that reports it. -/
def reports (walker : Walker) (source : Source) (file : String) : List (Identity × Diagnostic) :=
  source.sites.flatMap fun site =>
    (walker.listeners site.node.kind).flatMap fun descriptor =>
      (descriptor.reportsAt source file site).map fun diagnostic =>
        (descriptor.check.identity, diagnostic)

/-- The part of the reports that comes from the check registered at a place. -/
def part (walker : Walker) (place : Nat) (source : Source) (file : String) : List Diagnostic :=
  match walker.descriptors[place]? with
  | some descriptor =>
      ((walker.reports source file).filter (·.1 = descriptor.check.identity)).map (·.2)
  | none => []

section Reports

variable {walker : Walker} {source : Source} {file : String}

theorem map_reports : (walker.reports source file).map (·.2) =
    source.sites.flatMap fun site =>
      (walker.listeners site.node.kind).flatMap fun descriptor =>
        descriptor.reportsAt source file site := by
  simp [reports, List.map_flatMap, Function.comp_def]

theorem map_reports_of_single {descriptor : Descriptor}
    (h : walker.descriptors = [descriptor]) :
    (walker.reports source file).map (·.2) = descriptor.reports source file := by
  rw [map_reports, Descriptor.reports]
  congr 1
  funext site
  rw [listeners, h, List.filter_cons]
  split <;> simp_all

theorem filter_tagged (identity : Identity) (descriptors : List Descriptor)
    (found : Descriptor → List Diagnostic) :
    ((descriptors.flatMap fun descriptor =>
      (found descriptor).map fun diagnostic => (descriptor.check.identity, diagnostic)).filter
        (·.1 = identity)).map (·.2) =
      (descriptors.filter (·.check.identity = identity)).flatMap found := by
  induction descriptors with
  | nil => rfl
  | cons descriptor descriptors ih =>
      rw [List.flatMap_cons, List.filter_append, List.map_append, ih, List.filter_cons]
      by_cases hidentity : descriptor.check.identity = identity
      · simp [hidentity, List.filter_map, Function.comp_def]
      · simp [hidentity, List.filter_map, Function.comp_def]

theorem Consistent.filter_identity (h : Consistent walker) {descriptor : Descriptor}
    (hmem : descriptor ∈ walker.descriptors) :
    walker.descriptors.filter (·.check.identity = descriptor.check.identity) = [descriptor] := by
  have hdistinct := h.distinct
  rw [checks, List.map_map] at hdistinct
  generalize walker.descriptors = descriptors at hmem hdistinct
  induction descriptors with
  | nil => cases hmem
  | cons first descriptors ih =>
      rw [List.map_cons, List.nodup_cons] at hdistinct
      obtain ⟨hfirst, hlater⟩ := hdistinct
      rcases List.mem_cons.1 hmem with rfl | hmem
      · rw [List.filter_cons_of_pos (by simp), List.filter_eq_nil_iff.2]
        intro other hother hsame
        exact hfirst (List.mem_map.2 ⟨other, hother, by simpa using hsame⟩)
      · rw [List.filter_cons_of_neg, ih hmem hlater]
        intro hsame
        exact hfirst (List.mem_map.2 ⟨descriptor, hmem, (of_decide_eq_true hsame).symm⟩)

theorem Consistent.part_eq (h : Consistent walker) {place : Nat} {descriptor : Descriptor}
    (hplace : walker.descriptors[place]? = some descriptor) :
    walker.part place source file = descriptor.reports source file := by
  have hown := h.filter_identity (List.mem_of_getElem? hplace)
  simp only [part, hplace, reports, Descriptor.reports]
  rw [List.filter_flatMap, List.map_flatMap]
  congr 1
  funext site
  rw [filter_tagged, listeners, List.filter_comm, hown, List.filter_cons]
  split <;> simp_all

end Reports

/-! ## Processing -/

theorem Reliable.process_diagnostics {walker : Walker} (h : Reliable walker) (fs : FileSystem)
    {file text : String} {source : Source} (hparse : Source.parse text (some file) = .ok source) :
    (walker.process fs file (some text)).2.2.diagnostics =
      (walker.order source).flatMap (walker.logged (fileLabel (some file))) := by
  have hturned : Reliable (walker.turnTo file) := h.withCollector _
  have hnone : ∀ call ∈ (walker.turnTo file).order source,
      (walker.turnTo file).faultOf call = none := by
    rw [← calls_eq_order]
    intro call hcall
    rw [faultOf_of_isBound (hturned.isBound hcall)]
    exact hturned.respond_fault (Source.checkable hparse) hcall
  rw [process_of_ok walker fs hparse, walk, calls_eq_order, notifyAll_of_faultless _ hnone]
  rfl

section Parsed

variable {walker : Walker} {fs : FileSystem} {configs : List CheckConfig}

theorem Employed.logged_eq_nil {check : Check} {convention : Convention} {settings : Settings}
    (h : Employed fs configs check convention settings) (file : String)
    {notification : Notification} (hother : ∀ source site, notification ≠ .enter source site) :
    walker.logged file (check, notification) = [] := by
  rw [logged, h.respond_other hother]
  split <;> rfl

theorem Staffed.flatMap_logged (h : Staffed fs configs walker) (source : Source)
    (file : String) :
    (walker.order source).flatMap (walker.logged file) =
      (source.sites.flatMap (callsAt walker.subscribers (.enter source))).flatMap
        (walker.logged file) := by
  have hwalk {notification : Notification}
      (hother : ∀ source site, notification ≠ .enter source site) :
      (walker.checks.map fun check => (check, notification)).flatMap (walker.logged file) = [] := by
    rw [List.flatMap_map]
    refine List.flatMap_eq_nil_iff.2 fun check hcheck => ?_
    obtain ⟨convention, settings, hemployed⟩ := h.checks check hcheck
    exact hemployed.logged_eq_nil file hother
  have hleave : ∀ site : Site, ∀ check ∈ walker.subscribers site.node.kind,
      walker.logged file (check, .leave source site) = [] := by
    intro site check hcheck
    obtain ⟨convention, settings, hemployed, -⟩ := h.subscribers _ check hcheck
    exact hemployed.logged_eq_nil file (by simp)
  rw [order, List.flatMap_append, List.flatMap_append, hwalk (by simp), hwalk (by simp),
    List.nil_append, List.append_nil, flatMap_visit _ _ hleave]
  rfl

theorem Reliable.process_eq_reports (h : Reliable walker) (hconsistent : Consistent walker)
    (files : FileSystem) {file text : String} {source : Source}
    (hparse : Source.parse text (some file) = .ok source) :
    (walker.process files file (some text)).2.2.diagnostics =
      (walker.reports source (fileLabel (some file))).map (·.2) := by
  obtain ⟨fs, configs, hstaffed⟩ := h.staffed
  rw [h.process_diagnostics files hparse, hstaffed.flatMap_logged, map_reports,
    List.flatMap_assoc]
  congr 1
  funext site
  rw [callsAt, hconsistent.dispatch, List.map_map, List.flatMap_map]
  change (walker.listeners site.node.kind).flatMap _ = _
  apply List.flatMap_congr
  intro descriptor hdescriptor
  have hbound : walker.isBound descriptor.check = true :=
    h.bound _ (List.mem_map_of_mem (List.mem_filter.1 hdescriptor).1)
  simp only [Function.comp_apply, logged, hbound, if_true]
  rfl

end Parsed

/-! ## Setting up -/

section Alone

variable {walker : Walker} {fs : FileSystem}

theorem add_result_of_new {check : Check} (h : walker.isRegistered check = false) :
    (walker.add check).result =
      match (check.respond .init).fault with
      | some fault => .error fault
      | none =>
          match resolveKinds check with
          | .error cause => .error ((check.respond .destroy).fault.getD (.config cause))
          | .ok kinds => .ok ⟨check, kinds⟩ := by
  have hadds := walker.adds_add check
  generalize walker.add check = step at hadds
  cases hadds with
  | known hknown => cases h.symm.trans hknown
  | unstarted collector hnew hinit => simp only [hinit]
  | refused collector hnew hinit hkinds => simp only [hinit, hkinds]
  | entered collector hnew hinit hkinds => simp only [hinit, hkinds]

theorem configuredKinds_identity (check : Check) (identity : Identity) (names : List String) :
    configuredKinds { check with identity } names = configuredKinds check names := by
  induction names with
  | nil => rfl
  | cons name names ih => simp only [configuredKinds, ih]

theorem resolveKinds_identity (check : Check) (identity : Identity) :
    resolveKinds { check with identity } = resolveKinds check := by
  simp only [resolveKinds, configuredKinds_identity]

def verdict (fs : FileSystem) (config : CheckConfig) : Except Fault Convention :=
  match Catalogue.standard.find? config.name with
  | none => .error (.config (.unknownCheck config.name Catalogue.standard.names))
  | some convention =>
      match convention.prepare fs config {} with
      | .error fault => .error fault
      | .ok _ =>
          match resolveKinds (convention.check fs config (.configured 0)) with
          | .error cause => .error (.config cause)
          | .ok _ => .ok convention

theorem Sound.setup_result_eq (h : Sound walker) (config : CheckConfig) :
    (walker.setup fs config).result = verdict fs config := by
  unfold Walker.setup verdict
  cases Catalogue.standard.find? config.name with
  | none => rfl
  | some convention =>
      let check := convention.check fs config (.configured walker.serial)
      let counted : Walker := { walker with serial := walker.serial + 1 }
      have hnew : (counted.bind check).isRegistered check = false := h.isRegistered_counted rfl
      have hkinds : resolveKinds check =
          resolveKinds (convention.check fs config (.configured 0)) :=
        resolveKinds_identity (convention.check fs config (.configured 0)) _
      change ((counted.bind check).add check).result.map (fun _ => convention) = _
      rw [add_result_of_new hnew, hkinds]
      cases hprepare : convention.prepare fs config {} with
      | error fault => simp [check, Convention.check, hprepare, Except.map]
      | ok settings =>
          simp only [check, Convention.check, hprepare]
          cases resolveKinds _ <;> rfl

theorem Sound.verdict_of_setupAll {configs : List CheckConfig} {conventions : List Convention}
    (h : Sound walker) (hresult : (walker.setupAll fs configs).result = .ok conventions) :
    ∀ config ∈ configs, ∃ convention, verdict fs config = .ok convention := by
  induction configs generalizing walker conventions with
  | nil => simp
  | cons config configs ih =>
      cases hfirst : (walker.setup fs config).result with
      | error fault =>
          rw [(setupAll_cons_error configs hfirst).2] at hresult
          cases hresult
      | ok convention =>
          rw [(setupAll_cons_ok configs hfirst).2] at hresult
          cases hothers : ((walker.setup fs config).walker.setupAll fs configs).result with
          | error fault =>
              rw [hothers] at hresult
              cases hresult
          | ok others =>
              rw [h.setup_result_eq] at hfirst
              exact List.forall_mem_cons.2 ⟨⟨convention, hfirst⟩, ih h.setup hothers⟩

theorem describes_setupAll {collector : Collector} {configs : List CheckConfig}
    {conventions : List Convention}
    (h : (setupAll { collector } fs configs).result = .ok conventions) :
    List.Forall₂ (Describes fs) configs (setupAll { collector } fs configs).walker.descriptors := by
  obtain ⟨descriptors, hdescribed, hextends⟩ := (sound_fresh collector).enrolled_of_setupAll h
  rw [hextends.descriptors, List.nil_append]
  exact hdescribed

theorem Describes.reports_eq {config : CheckConfig} {descriptor other : Descriptor}
    (h : Describes fs config descriptor) (hother : Describes fs config other)
    (source : Source) (file : String) :
    other.reports source file = descriptor.reports source file := by
  obtain ⟨⟨convention, identity, hfind, hcheck⟩, hkinds⟩ := h
  obtain ⟨⟨convention', identity', hfind', hcheck'⟩, hkinds'⟩ := hother
  cases hfind.symm.trans hfind'
  have hsame : other.check = { descriptor.check with identity := identity' } := by
    rw [hcheck, hcheck']
    rfl
  rw [hsame, resolveKinds_identity, hkinds] at hkinds'
  have hsameKinds : descriptor.kinds = other.kinds := Except.ok.inj hkinds'
  have hat : other.reportsAt source file = descriptor.reportsAt source file := by
    funext site
    rw [Descriptor.reportsAt, hsame]
    rfl
  simp only [Descriptor.reports, hat, hsameKinds]

end Alone

section Accepted

variable {fs : FileSystem} {collector : Collector} {configs : List CheckConfig}
  {conventions : List Convention}

theorem consistent_setupAll (collector : Collector) (fs : FileSystem)
    (configs : List CheckConfig) : Consistent (setupAll { collector } fs configs).walker :=
  (sound_fresh collector).setupAll.toConsistent

theorem part_of_describes (h : (setupAll { collector } fs configs).result = .ok conventions)
    {place : Nat} {config : CheckConfig} (hplace : configs[place]? = some config)
    {descriptor : Descriptor} (hdescribes : Describes fs config descriptor) (source : Source)
    (file : String) :
    (setupAll { collector } fs configs).walker.part place source file =
      descriptor.reports source file := by
  have hdescribed := describes_setupAll h
  obtain ⟨hlength, hall⟩ := List.forall₂_iff_get.1 hdescribed
  obtain ⟨hinside, hconfig⟩ := List.getElem?_eq_some_iff.1 hplace
  have hown := hall place hinside (hlength ▸ hinside)
  rw [List.get_eq_getElem, List.get_eq_getElem, hconfig] at hown
  rw [(consistent_setupAll collector fs configs).part_eq
    (List.getElem?_eq_getElem (hlength ▸ hinside))]
  exact hdescribes.reports_eq hown source file

theorem accepted_alone (h : (setupAll { collector } fs configs).result = .ok conventions)
    {config : CheckConfig} (hconfig : config ∈ configs) :
    ∃ convention, (setupAll {} fs [config]).result = .ok [convention] := by
  obtain ⟨convention, hverdict⟩ := (sound_fresh collector).verdict_of_setupAll h config hconfig
  have hfirst : (setup {} fs config).result = .ok convention :=
    ((sound_fresh {}).setup_result_eq config).trans hverdict
  exact ⟨convention, (setupAll_cons_ok [] hfirst).2⟩

theorem process_alone {convention : Convention} {config : CheckConfig}
    (h : (setupAll {} fs [config]).result = .ok [convention]) :
    ∃ descriptor, Describes fs config descriptor ∧
      ∀ files file text source, Source.parse text (some file) = .ok source →
        ((setupAll {} fs [config]).walker.process files file (some text)).2.2.diagnostics =
          descriptor.reports source (fileLabel (some file)) := by
  have hdescribed := @describes_setupAll fs {} [config] [convention] h
  obtain ⟨descriptor, hdescribes, hsingle⟩ :
      ∃ descriptor, Describes fs config descriptor ∧
        (setupAll {} fs [config]).walker.descriptors = [descriptor] := by
    generalize (setupAll {} fs [config]).walker.descriptors = descriptors at hdescribed
    cases hdescribed with
    | cons hfirst hrest =>
        cases hrest
        exact ⟨_, hfirst, rfl⟩
  refine ⟨descriptor, hdescribes, fun files file text source hparse => ?_⟩
  rw [(reliable_setupAll {} fs [config]).process_eq_reports (consistent_setupAll {} fs [config])
    files hparse]
  exact map_reports_of_single hsingle

theorem mem_kinds_of_describes {convention : Convention} {config : CheckConfig}
    {descriptor : Descriptor} (h : Describes fs config descriptor)
    (hfind : Catalogue.standard.find? config.name = some convention) (kind : Kind) :
    kind ∈ descriptor.kinds ↔ kind ∈ convention.kinds := by
  obtain ⟨⟨other, identity, hother, hcheck⟩, hkinds⟩ := h
  obtain rfl : convention = other := Option.some.inj (hfind.symm.trans hother)
  have hresolved := resolved_of_resolveKinds hkinds
  have hacceptable : descriptor.check.acceptable = convention.kinds := by
    rw [hcheck]
    rfl
  have hrequired : descriptor.check.required = [] := by
    rw [hcheck]
    rfl
  by_cases hconfigured : descriptor.check.configured = []
  · rw [hresolved.of_defaults hconfigured, hcheck]
    rfl
  · obtain ⟨hnames, hmem⟩ := hresolved.of_configured hconfigured
    rw [hmem, hrequired]
    obtain ⟨own, hown⟩ : ∃ own, convention.kinds = [own] := by
      cases convention <;> exact ⟨_, rfl⟩
    obtain ⟨name, hname⟩ := List.exists_mem_of_ne_nil _ hconfigured
    obtain ⟨named, hnamed⟩ := hnames name hname
    have hown' : named = own := by simpa [hacceptable, hown] using hnamed.2
    constructor
    · rintro (hnone | ⟨_, -, hasked⟩)
      · cases hnone
      · exact hacceptable ▸ hasked.2
    · intro hkind
      obtain rfl : kind = named := by simpa [hown, hown'] using hkind
      exact .inr ⟨name, hname, hnamed⟩

theorem verdict_eq_ok {convention : Convention} {config : CheckConfig}
    (h : verdict fs config = .ok convention) :
    Catalogue.standard.find? config.name = some convention ∧
      ∃ settings, convention.prepare fs config {} = .ok settings := by
  unfold verdict at h
  split at h
  · cases h
  · split at h
    · cases h
    · split at h
      · cases h
      · cases h
        exact ⟨by assumption, _, by assumption⟩

theorem process_convention {convention : Convention} {config : CheckConfig}
    (h : (setupAll {} fs [config]).result = .ok [convention]) {file text : String}
    {source : Source} (hparse : Source.parse text (some file) = .ok source)
    (files : FileSystem) :
    ∃ settings, convention.prepare fs config {} = .ok settings ∧
      ((setupAll {} fs [config]).walker.process files file (some text)).2.2.diagnostics =
        (source.sites.flatMap fun site =>
          if site.node.kind ∈ convention.kinds then
            (convention.enter settings (some source) site).remarks
          else []).map fun remark =>
            ⟨fileLabel (some file), remark.line, remark.message, convention.name,
              config.severity⟩ := by
  have hverdict : verdict fs config = .ok convention := by
    rw [← (sound_fresh {}).setup_result_eq config]
    cases hfirst : (setup {} fs config).result with
    | error fault =>
        rw [(setupAll_cons_error [] hfirst).2] at h
        cases h
    | ok other =>
        rw [(setupAll_cons_ok [] hfirst).2] at h
        cases h
        rfl
  obtain ⟨hfind, settings, hprepare⟩ := verdict_eq_ok hverdict
  obtain ⟨descriptor, hdescribes, hprocess⟩ := process_alone h
  refine ⟨settings, hprepare, ?_⟩
  obtain ⟨other, identity, hother, hcheck⟩ := hdescribes.made
  obtain rfl : convention = other := Option.some.inj (hfind.symm.trans hother)
  rw [hprocess files file text source hparse, Descriptor.reports, List.map_flatMap]
  congr 1
  funext site
  simp only [mem_kinds_of_describes hdescribes hfind]
  split
  · rw [Descriptor.reportsAt, hcheck]
    simp only [Convention.check, hprepare]
    rfl
  · rfl

/-- Checks do not depend on each other.  The diagnostics of a file are those that are
reported node by node in preorder, and of one node by the checks that are told about it in
the order of their configurations.  The part of each check is what processing the file
gives with that check alone; and it is the same among any others, in any order. -/
theorem process_independent
    (haccepted : (setupAll { collector } fs configs).result = .ok conventions)
    {file text : String} {source : Source} (hparse : Source.parse text (some file) = .ok source)
    (files : FileSystem) :
    let walker := (setupAll { collector } fs configs).walker
    let label := fileLabel (some file)
    source.sites.map Site.node = source.root.preorder ∧
    List.Forall₂ (Describes fs) configs walker.descriptors ∧
    (walker.process files file (some text)).2.2.diagnostics =
      (walker.reports source label).map (·.2) ∧
    (∀ place config, configs[place]? = some config →
      (∃ convention, (setupAll {} fs [config]).result = .ok [convention]) ∧
      walker.part place source label =
        ((setupAll {} fs [config]).walker.process files file (some text)).2.2.diagnostics) ∧
    ∀ others otherConventions, (setupAll { collector } fs others).result = .ok otherConventions →
      ∀ place otherPlace config, configs[place]? = some config →
        others[otherPlace]? = some config →
        (setupAll { collector } fs others).walker.part otherPlace source label =
          walker.part place source label := by
  intro walker label
  refine ⟨source.root.map_node_sites [], describes_setupAll haccepted, ?_, ?_, ?_⟩
  · have hreliable : Reliable walker := reliable_setupAll collector fs configs
    have hconsistent : Consistent walker := consistent_setupAll collector fs configs
    exact hreliable.process_eq_reports hconsistent files hparse
  · intro place config hplace
    obtain ⟨convention, halone⟩ := accepted_alone haccepted (List.mem_of_getElem? hplace)
    obtain ⟨descriptor, hdescribes, hprocess⟩ := process_alone halone
    refine ⟨⟨convention, halone⟩, ?_⟩
    rw [hprocess files file text source hparse]
    exact part_of_describes haccepted hplace hdescribes source label
  · intro others otherConventions hothers place otherPlace config hplace hotherPlace
    obtain ⟨convention, halone⟩ := accepted_alone haccepted (List.mem_of_getElem? hplace)
    obtain ⟨descriptor, hdescribes, -⟩ := process_alone halone
    rw [part_of_describes hothers hotherPlace hdescribes,
      part_of_describes haccepted hplace hdescribes]

def Descriptor.sampleConfigs : List CheckConfig :=
  [{ name := "TokensNamingCheck" }, { name := "RuleColonSemicolonCheck" },
    { name := "TokensNamingCheck", severity := .warning }]

def Descriptor.sampleText : String :=
  "grammar t;\ntokens \x7b a; B; c; \x7d\nr : a ;"

theorem process_independent_sample :
    (setupAll {} Reachable.sampleFiles Descriptor.sampleConfigs).result =
      .ok [.tokenNames, .delimiters, .tokenNames] ∧
    (setupAll {} Reachable.sampleFiles Descriptor.sampleConfigs.reverse).result =
      .ok [.tokenNames, .delimiters, .tokenNames] ∧
    ((setupAll {} Reachable.sampleFiles
      [{ name := "TokensNamingCheck", severity := .warning }]).walker.process
        Reachable.sampleFiles "t.g" (some Descriptor.sampleText)).2.2.diagnostics =
      [⟨"t.g", 2, "imaginary tokens have to be in upper case.", "TokensNamingCheck", .warning⟩,
        ⟨"t.g", 2, "imaginary tokens have to be in upper case.", "TokensNamingCheck", .warning⟩] ∧
    ∃ source, Source.parse Descriptor.sampleText (some "t.g") = .ok source ∧
      (setupAll {} Reachable.sampleFiles Descriptor.sampleConfigs).walker.part 2 source "t.g" =
        ((setupAll {} Reachable.sampleFiles
          [{ name := "TokensNamingCheck", severity := .warning }]).walker.process
            Reachable.sampleFiles "t.g" (some Descriptor.sampleText)).2.2.diagnostics ∧
      (setupAll {} Reachable.sampleFiles Descriptor.sampleConfigs.reverse).walker.part 0
          source "t.g" =
        (setupAll {} Reachable.sampleFiles Descriptor.sampleConfigs).walker.part 2
          source "t.g" := by
  have haccepted : (setupAll { collector := {} } Reachable.sampleFiles
      Descriptor.sampleConfigs).result = .ok [.tokenNames, .delimiters, .tokenNames] := rfl
  have hreversed : (setupAll { collector := {} } Reachable.sampleFiles
      Descriptor.sampleConfigs.reverse).result = .ok [.tokenNames, .delimiters, .tokenNames] := rfl
  have hsome : (Source.parse Descriptor.sampleText (some "t.g")).toOption.isSome = true := by
    decide +kernel
  obtain ⟨source, hparse⟩ := Source.exists_of_isSome hsome
  obtain ⟨-, -, -, halone, hothers⟩ :=
    process_independent haccepted hparse Reachable.sampleFiles
  refine ⟨haccepted, hreversed, by decide +kernel, source, hparse, ?_, ?_⟩
  · exact (halone 2 _ rfl).2
  · exact hothers _ _ hreversed 2 0 _ rfl rfl

end Accepted

end Walker

end GrammarLint
