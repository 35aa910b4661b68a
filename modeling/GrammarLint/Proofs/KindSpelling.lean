import GrammarLint.Proofs.Independence
import GrammarLint.Proofs.KindNames

/-!
# Spellings of kinds

Names are trimmed as they are looked up.  What comes of an entry and of registering its
check depends on nothing but the trimmed names: not on white space, on their order, on how
often each is given, or on whether they are listed or joined.
-/

namespace GrammarLint

open Document Files Text

namespace Walker

/-! ## Kinds -/

def AcceptsAll (check : Check) (names : List String) : Prop :=
  ∀ name ∈ names, ∃ kind ∈ check.acceptable, kind.name = trim name

/-- The kinds that a check is told about if it asks for the names: the required ones and
those that have one of the names. -/
def kindsNamed (check : Check) (names : List String) : List Kind :=
  Kind.inOrder (check.required ++
    check.acceptable.filter fun kind => (names.map trim).contains kind.name)

/-- What is wrong with a name: no kind has it, or the check does not accept the kind. -/
inductive NameFault (check : Check) (name : String) : ConfigFault → Prop where
  | unknown (hunknown : ∀ kind : Kind, kind.name ≠ trim name) :
      NameFault check name (.unknownKind (.string name) kindsHint)
  | illegal {kind : Kind} (hname : kind.name = trim name) (hillegal : kind ∉ check.acceptable) :
      NameFault check name (.illegalKind name check.name check.acceptable)

section Resolution

variable {check : Check} {names : List String}

theorem lookup_eq_ok_iff {name : String} {kind : Kind} :
    KindTable.standard.lookup name = .ok kind ↔ kind.name = trim name := by
  rw [KindTable.lookup, KindTable.standard]
  constructor
  · intro h
    split at h
    · rename_i found hfound
      cases h
      have hname := List.find?_some hfound
      exact beq_iff_eq.1 hname
    · cases h
  · intro h
    rw [← h, kind.find?_name]

theorem names_iff {name : String} {kind : Kind} :
    Names check name kind ↔ kind.name = trim name ∧ kind ∈ check.acceptable := by
  rw [Names, lookup_eq_ok_iff]

theorem nameFault_of_lookup {name : String} {cause : ConfigFault}
    (h : KindTable.standard.lookup name = .error cause) : NameFault check name cause := by
  have hunknown (kind : Kind) : kind.name ≠ trim name := by
    intro hname
    cases h.symm.trans (lookup_eq_ok_iff.2 hname)
  rw [KindTable.lookup] at h
  split at h
  · cases h
  · cases h
    exact .unknown hunknown

theorem nameFault_of_configuredKinds {cause : ConfigFault}
    (h : configuredKinds check names = .error cause) :
    ∃ name ∈ names, NameFault check name cause := by
  induction names with
  | nil => cases h
  | cons name names ih =>
      rw [configuredKinds] at h
      cases hlookup : KindTable.standard.lookup name with
      | error fault =>
          simp only [hlookup] at h
          cases h
          exact ⟨name, List.mem_cons_self, nameFault_of_lookup hlookup⟩
      | ok kind =>
          simp only [hlookup] at h
          split at h
          · cases hrest : configuredKinds check names with
            | ok kinds =>
                rw [hrest] at h
                cases h
            | error fault =>
                rw [hrest] at h
                cases h
                obtain ⟨other, hother, hfault⟩ := ih hrest
                exact ⟨other, List.mem_cons_of_mem _ hother, hfault⟩
          · rename_i hillegal
            cases h
            exact ⟨name, List.mem_cons_self,
              .illegal (lookup_eq_ok_iff.1 hlookup) (by simpa using hillegal)⟩

theorem acceptsAll_iff :
    AcceptsAll check names ↔
      ∀ name ∈ names.map trim, ∃ kind ∈ check.acceptable, kind.name = name := by
  rw [List.forall_mem_map]
  rfl

theorem acceptsAll_congr {texts : List String} (h : SameNames texts names) :
    AcceptsAll check texts ↔ AcceptsAll check names := by
  rw [acceptsAll_iff, acceptsAll_iff]
  exact forall_congr' fun name => imp_congr_left (h name)

theorem resolveKinds_of_sameNames (h : SameNames check.configured names) (hsome : names ≠ []) :
    (AcceptsAll check names → resolveKinds check = .ok (kindsNamed check names)) ∧
    (¬AcceptsAll check names →
      ∃ name ∈ check.configured, ∃ cause, NameFault check name cause ∧
        resolveKinds check = .error cause) := by
  have hresolve : resolveKinds check = (configuredKinds check check.configured).map
      fun kinds => Kind.inOrder (check.required ++ kinds) := by
    have hasked := h.ne_nil hsome
    rw [resolveKinds]
    split
    · contradiction
    · rfl
  rw [hresolve, ← acceptsAll_congr h]
  rcases configuredKinds_cases check check.configured with
    ⟨kinds, hkinds, hknown, hmem⟩ | ⟨cause, hcause, name, hname, hnone⟩
  · have haccepts : AcceptsAll check check.configured := by
      intro name hname
      obtain ⟨kind, hnames⟩ := hknown name hname
      rw [names_iff] at hnames
      exact ⟨kind, hnames.2, hnames.1⟩
    refine ⟨fun _ => ?_, fun hnot => absurd haccepts hnot⟩
    have hnamed (kind : Kind) : kind ∈ kinds ↔
        kind ∈ check.acceptable ∧ kind.name ∈ names.map trim := by
      rw [hmem, ← h kind.name, List.mem_map]
      grind [names_iff]
    rw [hkinds]
    refine congrArg Except.ok (Kind.inOrder_congr fun kind => ?_)
    rw [List.mem_append, List.mem_append, hnamed, List.mem_filter, List.contains_iff_mem]
  · have hnot : ¬AcceptsAll check check.configured := by
      intro haccepts
      obtain ⟨kind, haccepted, hkind⟩ := haccepts name hname
      exact hnone kind (names_iff.2 ⟨hkind, haccepted⟩)
    refine ⟨fun haccepts => absurd haccepts hnot, fun _ => ?_⟩
    obtain ⟨other, hother, hfault⟩ := nameFault_of_configuredKinds hcause
    exact ⟨other, hother, cause, hfault, by rw [hcause]; rfl⟩

end Resolution

/-! ## Registration -/

/-- The check is entered at the end of the tables, once for each of the kinds, and the step has
the value. -/
structure Entered {α : Type} (walker : Walker) (check : Check) (kinds : List Kind) (value : α)
    (step : Step α) : Prop where
  result : step.result = .ok value
  descriptors : step.walker.descriptors = walker.descriptors ++ [⟨check, kinds⟩]
  subscribers : ∀ kind, step.walker.subscribers kind =
    walker.subscribers kind ++ if kind ∈ kinds then [check] else []

/-- The step fails for a name that the check asks for, and the tables stay. -/
structure Refused {α : Type} (walker : Walker) (check : Check) (step : Step α) : Prop where
  result : ∃ name ∈ check.configured, ∃ cause, NameFault check name cause ∧
    step.result = .error (.config cause)
  tables : SameTables step.walker walker

/-- What comes of a check depends on the names that it asks for. -/
structure Decided {α : Type} (walker : Walker) (check : Check) (names : List String) (value : α)
    (step : Step α) : Prop where
  entered : AcceptsAll check names → Entered walker check (kindsNamed check names) value step
  refused : ¬AcceptsAll check names → Refused walker check step

section Outcomes

variable {α β : Type} {walker other : Walker} {check : Check} {names : List String} {value : α}
  {step : Step α}

theorem entered_of_sameTables {kinds : List Kind} (hkinds : kinds.Nodup)
    (hresult : step.result = .ok value)
    (htables : SameTables step.walker (walker.enroll ⟨check, kinds⟩)) :
    Entered walker check kinds value step where
  result := hresult
  descriptors := htables.descriptors
  subscribers kind := by
    rw [((extends_enroll walker hkinds).of_sameTables htables).subscribers, List.filter_singleton]
    by_cases hkind : kind ∈ kinds
    · simp [hkind]
    · simp [hkind]

theorem decided_of_resolveKinds (h : SameNames check.configured names) (hsome : names ≠ [])
    (hok : ∀ kinds, kinds = kindsNamed check names → resolveKinds check = .ok kinds →
      step.result = .ok value ∧ SameTables step.walker (walker.enroll ⟨check, kinds⟩))
    (herror : ∀ cause, resolveKinds check = .error cause →
      step.result = .error (.config cause) ∧ SameTables step.walker walker) :
    Decided walker check names value step := by
  obtain ⟨haccepts, hrefuses⟩ := resolveKinds_of_sameNames h hsome
  constructor
  · intro hall
    obtain ⟨hresult, htables⟩ := hok _ rfl (haccepts hall)
    exact entered_of_sameTables (nodup_inOrder _) hresult htables
  · intro hnot
    obtain ⟨name, hname, cause, hfault, hcause⟩ := hrefuses hnot
    obtain ⟨hresult, htables⟩ := herror cause hcause
    exact ⟨⟨name, hname, cause, hfault, hresult⟩, htables⟩

theorem decided_register (h : SameNames check.configured names) (hsome : names ≠ [])
    (hnew : walker.isRegistered check = false) :
    Decided walker check names ⟨check, kindsNamed check names⟩ (walker.register check) := by
  apply decided_of_resolveKinds h hsome
  · intro kinds hnamed hkinds
    rw [register, hnew, hkinds, hnamed]
    exact ⟨rfl, rfl, rfl, rfl⟩
  · intro cause hkinds
    rw [register, hnew, hkinds]
    exact ⟨rfl, rfl, rfl, rfl⟩

theorem decided_add (h : SameNames check.configured names) (hsome : names ≠ [])
    (hnew : walker.isRegistered check = false) (hinit : (check.respond .init).fault = none)
    (hdestroy : (check.respond .destroy).fault = none) :
    Decided walker check names ⟨check, kindsNamed check names⟩ (walker.add check) := by
  have hbind := sameTables_bind walker check
  have hadds := walker.adds_add check
  generalize walker.add check = step at hadds
  cases hadds with
  | known hknown => cases hnew.symm.trans hknown
  | unstarted _ _ hfault => cases hinit.symm.trans hfault
  | refused collector _ _ hrefused =>
      apply decided_of_resolveKinds h hsome
      · intro kinds _ hkinds
        cases hkinds.symm.trans hrefused
      · intro cause hkinds
        cases hkinds.symm.trans hrefused
        rw [hdestroy]
        exact ⟨rfl, (sameTables_withCollector _ collector).trans hbind⟩
  | entered collector _ _ hentered =>
      apply decided_of_resolveKinds h hsome
      · intro kinds hnamed hkinds
        cases hkinds.symm.trans hentered
        rw [← hnamed]
        exact ⟨rfl, (sameTables_withCollector _ collector).trans (hbind.enroll _)⟩
      · intro cause hkinds
        cases hkinds.symm.trans hentered

theorem Decided.of_sameTables (h : Decided walker check names value step)
    (hsame : SameTables walker other) : Decided other check names value step := by
  constructor
  · intro hall
    obtain ⟨hresult, hdescriptors, hsubscribers⟩ := h.entered hall
    refine ⟨hresult, by rw [hdescriptors, hsame.descriptors], fun kind => ?_⟩
    rw [hsubscribers, Walker.subscribers, hsame.dispatch]
    rfl
  · intro hnot
    obtain ⟨hresult, htables⟩ := h.refused hnot
    exact ⟨hresult, htables.trans hsame⟩

theorem Decided.map (h : Decided walker check names value step) (f : α → β) :
    Decided walker check names (f value) { step with result := step.result.map f } := by
  constructor
  · intro hall
    obtain ⟨hresult, hdescriptors, hsubscribers⟩ := h.entered hall
    exact ⟨by rw [hresult]; rfl, hdescriptors, hsubscribers⟩
  · intro hnot
    obtain ⟨⟨name, hname, cause, hfault, hresult⟩, htables⟩ := h.refused hnot
    exact ⟨⟨name, hname, cause, hfault, by rw [hresult]; rfl⟩, htables⟩

theorem Sound.prepared_of_setup (hsound : Sound walker) {fs : FileSystem} {config : CheckConfig}
    {convention : Convention} (h : (walker.setup fs config).result = .ok convention) :
    Catalogue.standard.find? config.name = some convention ∧
      ∃ settings, convention.prepare fs config {} = .ok settings := by
  rw [hsound.setup_result_eq, verdict] at h
  cases hfind : Catalogue.standard.find? config.name with
  | none =>
      simp only [hfind] at h
      cases h
  | some found =>
      simp only [hfind] at h
      cases hprepare : found.prepare fs config {} with
      | error fault =>
          simp only [hprepare] at h
          cases h
      | ok settings =>
          simp only [hprepare] at h
          split at h
          · cases h
          · cases h
            exact ⟨rfl, settings, hprepare⟩

theorem Sound.decided_setup (hsound : Sound walker) {fs : FileSystem} {plain : CheckConfig}
    {convention : Convention} (hplain : (walker.setup fs plain).result = .ok convention)
    {asked : List String} (h : SameNames asked names) (hsome : names ≠ []) :
    Decided walker (convention.check fs { plain with kinds := asked } (.configured walker.serial))
      names convention (walker.setup fs { plain with kinds := asked }) := by
  obtain ⟨hfind, settings, hprepare⟩ := hsound.prepared_of_setup hplain
  have hsettings : convention.prepare fs { plain with kinds := asked } {} = .ok settings := by
    rw [← hprepare]
    cases convention <;> simp only [Convention.prepare, CheckConfig.getBool, CheckConfig.get]
  let check := convention.check fs { plain with kinds := asked } (.configured walker.serial)
  let counted : Walker := { walker with serial := walker.serial + 1 }
  have hnew : (counted.bind check).isRegistered check = false := hsound.isRegistered_counted rfl
  have hinit : (check.respond .init).fault = none := by
    simp only [check, Convention.check, hsettings, Reaction.silent]
  have hdestroy : (check.respond .destroy).fault = none := by
    simp only [check, Convention.check, hsettings, Reaction.silent]
  have hadd := @decided_add (counted.bind check) check names h hsome hnew hinit hdestroy
  simp only [Walker.setup, hfind]
  exact (hadd.map fun _ => convention).of_sameTables (sameTables_counted walker check)

end Outcomes

/-- However the kinds of some names are spelled, an entry whose other settings can be used is
read, and what comes of registering, adding or setting up its check is decided by the names: if
the check accepts all of them it is entered, once for each of the same kinds, and else it is
refused for one of them. -/
theorem Reachable.spelling_immaterial {walker : Walker} (h : Reachable walker) {fs : FileSystem}
    {base : Option Path} {others : List (String × Value)} {plain : CheckConfig}
    (hplain : CheckConfig.ofValue fs base (.object others) = .ok plain) {names : List String}
    (hsome : names ≠ []) {value : Value} (hspells : Spells names value)
    {fields : List (String × Value)} (hasks : AsksFor value others fields) :
    ∃ asked, SameNames asked names ∧
      CheckConfig.ofValue fs base (.object fields) = .ok { plain with kinds := asked } ∧
      (∀ check, walker.isRegistered check = false → check.configured = asked →
        Decided walker check names ⟨check, kindsNamed check names⟩ (walker.register check) ∧
        ((check.respond .init).fault = none → (check.respond .destroy).fault = none →
          Decided walker check names ⟨check, kindsNamed check names⟩ (walker.add check))) ∧
      ∀ convention, (walker.setup fs plain).result = .ok convention →
        Decided walker
          (convention.check fs { plain with kinds := asked } (.configured walker.serial)) names
          convention (walker.setup fs { plain with kinds := asked }) := by
  obtain ⟨asked, hread, hsame⟩ := hspells.kindNames_eq plain.name
  refine ⟨asked, hsame, hasks.ofValue_eq hplain hread, ?_, ?_⟩
  · rintro check hnew rfl
    exact ⟨decided_register hsame hsome hnew, decided_add hsame hsome hnew⟩
  · intro convention hconvention
    exact h.sound.decided_setup hconvention hsame hsome

def Reachable.samplePlain : CheckConfig :=
  { name := "TokensSpaceCheck", options := [(spacedOption, .bool false)] }

def Reachable.sampleOthers : List (String × Value) :=
  [("name", .string "TokensSpaceCheck"), (spacedOption, .bool false)]

def Reachable.sampleSpelling : Value :=
  .string (String.intercalate "," [" ", " TOKENS\t", ""])

theorem Reachable.spelling_immaterial_sample :
    Reachable sampleWalker ∧
    CheckConfig.ofValue sampleFiles none (.object sampleOthers) = .ok samplePlain ∧
    Spells ["TOKENS"] sampleSpelling ∧
    AsksFor sampleSpelling sampleOthers (("kinds", sampleSpelling) :: sampleOthers) ∧
    ∃ asked, CheckConfig.ofValue sampleFiles none
        (.object (("kinds", sampleSpelling) :: sampleOthers)) =
          .ok { samplePlain with kinds := asked } ∧
      Entered sampleWalker
        (Convention.tokensSpacing.check sampleFiles { samplePlain with kinds := asked }
          (.configured sampleWalker.serial))
        [.tokens] Convention.tokensSpacing
        (sampleWalker.setup sampleFiles { samplePlain with kinds := asked }) := by
  have hreachable := Reachable.of_sampleOperations
  have hplain : CheckConfig.ofValue sampleFiles none (.object sampleOthers) = .ok samplePlain :=
    rfl
  have hspells : Spells ["TOKENS"] sampleSpelling := by
    apply Spells.of_pads
    · decide
    · have hparts : [" ", " TOKENS\t", ""].filter (!allBlank ·) = [" TOKENS\t"] := by
        decide +kernel
      have hblanks : [' ', '\t'].all isBlank = true := by decide
      rw [hparts]
      exact .cons ⟨[' '], ['\t'], by decide, List.all_eq_true.1 hblanks⟩ .nil
  have hasks : AsksFor sampleSpelling sampleOthers (("kinds", sampleSpelling) :: sampleOthers) :=
    ⟨rfl, .inr ⟨rfl, rfl⟩⟩
  have hsetup : (sampleWalker.setup sampleFiles samplePlain).result = .ok .tokensSpacing :=
    setup_result sampleWalker (by decide +kernel) rfl rfl
  obtain ⟨asked, -, hread, -, hdecided⟩ :=
    hreachable.spelling_immaterial hplain (List.cons_ne_nil _ _) hspells hasks
  have haccepts : AcceptsAll (Convention.tokensSpacing.check sampleFiles
      { samplePlain with kinds := asked } (.configured sampleWalker.serial)) ["TOKENS"] := by
    intro name hname
    rw [List.mem_singleton] at hname
    exact ⟨.tokens, List.mem_singleton_self _, by rw [hname]; decide +kernel⟩
  exact ⟨hreachable, hplain, hspells, hasks, asked, hread,
    (hdecided .tokensSpacing hsetup).entered haccepts⟩

end Walker

end GrammarLint
