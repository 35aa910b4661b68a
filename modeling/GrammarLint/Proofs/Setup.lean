import GrammarLint.Proofs.Walk
import GrammarLint.Walker.Setup
import Mathlib.Data.List.Nodup
import Mathlib.Tactic.Common

/-!
# Setting up checks

What adding a check can do to the tables of a walker; that every check of a
walker that was set up is one of a convention, with its settings, and told about
no kinds but those of the convention; and that the default checks are set up.
-/

namespace GrammarLint

open Files

/-! ## Dispatch -/

theorem Dispatch.get_appendAll (dispatch : Dispatch) (kinds : List Kind) (check : Check)
    (kind : Kind) : (dispatch.appendAll kinds check).get kind =
      dispatch.get kind ++ List.replicate (kinds.count kind) check := by
  induction kinds generalizing dispatch with
  | nil => simp [appendAll]
  | cons first kinds ih =>
      change ((dispatch.append first check).appendAll kinds check).get kind = _
      rw [ih, get_append]
      by_cases hkind : kind = first
      · simp [hkind, List.replicate_succ]
      · simp [hkind, Ne.symm hkind]

theorem Dispatch.mem_get_appendAll {dispatch : Dispatch} {kinds : List Kind} {check other : Check}
    {kind : Kind} : other ∈ (dispatch.appendAll kinds check).get kind ↔
      other ∈ dispatch.get kind ∨ kind ∈ kinds ∧ other = check := by
  simp [get_appendAll, List.mem_replicate, List.count_eq_zero]

namespace Walker

/-! ## Kinds -/

def Names (check : Check) (name : String) (kind : Kind) : Prop :=
  KindTable.standard.lookup name = .ok kind ∧ kind ∈ check.acceptable

def Overreaches (check : Check) (names : List String) : Prop :=
  ∃ name ∈ names, ∀ kind, ¬Names check name kind

theorem configuredKinds_cases (check : Check) (names : List String) :
    (∃ kinds, configuredKinds check names = .ok kinds ∧
      (∀ name ∈ names, ∃ kind, Names check name kind) ∧
      ∀ kind, kind ∈ kinds ↔ ∃ name ∈ names, Names check name kind) ∨
    ∃ cause, configuredKinds check names = .error cause ∧ Overreaches check names := by
  induction names with
  | nil => exact .inl ⟨[], rfl, by simp, by simp⟩
  | cons name names ih =>
      simp only [configuredKinds]
      cases hlookup : KindTable.standard.lookup name with
      | error cause =>
          refine .inr ⟨cause, rfl, name, List.mem_cons_self, fun kind hnames => ?_⟩
          cases hlookup.symm.trans hnames.1
      | ok first =>
          have hfirst (kind : Kind) : Names check name kind ↔
              kind = first ∧ first ∈ check.acceptable := by
            constructor
            · intro hnames
              cases hlookup.symm.trans hnames.1
              exact ⟨rfl, hnames.2⟩
            · rintro ⟨rfl, haccepted⟩
              exact ⟨hlookup, haccepted⟩
          by_cases haccepted : first ∈ check.acceptable
          · rcases ih with ⟨kinds, hkinds, hknown, hmem⟩ | ⟨cause, hcause, other, hother, hnot⟩
            · refine .inl ⟨first :: kinds, by simp [haccepted, hkinds, Except.map], ?_, ?_⟩
              · exact List.forall_mem_cons.2 ⟨⟨first, (hfirst first).2 ⟨rfl, haccepted⟩⟩, hknown⟩
              · intro kind
                simp [hmem, hfirst, haccepted]
            · exact .inr ⟨cause, by simp [haccepted, hcause, Except.map], other,
                List.mem_cons_of_mem _ hother, hnot⟩
          · refine .inr ⟨_, if_neg (by simpa using haccepted), name, List.mem_cons_self, ?_⟩
            exact fun kind hnames => haccepted ((hfirst kind).1 hnames).2

/-- The kinds of a descriptor are the default kinds of its check if its configuration
asks for none, and else the required ones and those that it asks for. -/
structure Resolved (descriptor : Descriptor) : Prop where
  nodup : descriptor.kinds.Nodup
  of_defaults : descriptor.check.configured = [] →
    ∀ kind, kind ∈ descriptor.kinds ↔ kind ∈ descriptor.check.defaults
  of_configured : descriptor.check.configured ≠ [] →
    (∀ name ∈ descriptor.check.configured, ∃ kind, Names descriptor.check name kind) ∧
      ∀ kind, kind ∈ descriptor.kinds ↔ kind ∈ descriptor.check.required ∨
        ∃ name ∈ descriptor.check.configured, Names descriptor.check name kind

theorem nodup_inOrder (kinds : List Kind) : (Kind.inOrder kinds).Nodup :=
  List.Nodup.filter _ (by decide)

theorem resolveKinds_cases (check : Check) :
    (∃ kinds, resolveKinds check = .ok kinds ∧ Resolved ⟨check, kinds⟩) ∨
    ∃ cause, resolveKinds check = .error cause ∧ Overreaches check check.configured := by
  unfold resolveKinds
  cases hnames : check.configured with
  | nil =>
      refine .inl ⟨_, rfl, nodup_inOrder _, fun _ kind => Kind.mem_inOrder, ?_⟩
      exact fun hsome => absurd hnames hsome
  | cons name names =>
      rcases configuredKinds_cases check (name :: names) with
        ⟨kinds, hkinds, hknown, hmem⟩ | ⟨cause, hcause, hover⟩
      · refine .inl ⟨Kind.inOrder (check.required ++ kinds), by simp [hkinds, Except.map],
          nodup_inOrder _, ?_, fun _ => ?_⟩
        · exact fun hnone => absurd (hnames.symm.trans hnone) (by simp)
        · refine ⟨by rwa [hnames], fun kind => ?_⟩
          rw [Kind.mem_inOrder, List.mem_append, hmem kind, hnames]
      · exact .inr ⟨cause, by simp [hcause, Except.map], hover⟩

theorem resolved_of_resolveKinds {check : Check} {kinds : List Kind}
    (h : resolveKinds check = .ok kinds) : Resolved ⟨check, kinds⟩ := by
  rcases resolveKinds_cases check with ⟨others, hothers, hresolved⟩ | ⟨cause, hcause, -⟩
  · rw [h] at hothers
    cases hothers
    exact hresolved
  · rw [h] at hcause
    cases hcause

theorem overreaches_of_resolveKinds {check : Check} {cause : ConfigFault}
    (h : resolveKinds check = .error cause) : Overreaches check check.configured := by
  rcases resolveKinds_cases check with ⟨kinds, hkinds, -⟩ | ⟨-, -, hover⟩
  · rw [h] at hkinds
    cases hkinds
  · exact hover

theorem Resolved.mem {descriptor : Descriptor} (h : Resolved descriptor) {kind : Kind}
    (hkind : kind ∈ descriptor.kinds) :
    kind ∈ descriptor.check.defaults ∨ kind ∈ descriptor.check.required ∨
      kind ∈ descriptor.check.acceptable := by
  by_cases hnone : descriptor.check.configured = []
  · exact .inl ((h.of_defaults hnone kind).1 hkind)
  · rcases ((h.of_configured hnone).2 kind).1 hkind with hrequired | ⟨name, -, hnames⟩
    · exact .inr (.inl hrequired)
    · exact .inr (.inr hnames.2)

/-! ## Tables -/

structure SameTables (walker other : Walker) : Prop where
  descriptors : walker.descriptors = other.descriptors
  registered : walker.registered = other.registered
  dispatch : walker.dispatch = other.dispatch

section Tables

variable (walker : Walker) (check : Check)

theorem sameTables_withCollector (collector : Collector) :
    SameTables { walker with collector } walker :=
  ⟨rfl, rfl, rfl⟩

theorem sameTables_bind : SameTables (walker.bind check) walker := by
  unfold bind
  split <;> exact ⟨rfl, rfl, rfl⟩

theorem sameTables_counted :
    SameTables ({ walker with serial := walker.serial + 1 }.bind check) walker := by
  obtain ⟨hdescriptors, hregistered, hdispatch⟩ :=
    sameTables_bind { walker with serial := walker.serial + 1 } check
  exact ⟨hdescriptors, hregistered, hdispatch⟩

variable {walker}

theorem SameTables.trans {second third : Walker} (h : SameTables walker second)
    (h' : SameTables second third) : SameTables walker third :=
  ⟨h.descriptors.trans h'.descriptors, h.registered.trans h'.registered,
    h.dispatch.trans h'.dispatch⟩

theorem SameTables.enroll {other : Walker} (h : SameTables walker other)
    (descriptor : Descriptor) : SameTables (walker.enroll descriptor) (other.enroll descriptor) :=
  ⟨by simp [Walker.enroll, h.descriptors], by simp [Walker.enroll, h.registered],
    by simp [Walker.enroll, h.dispatch]⟩

theorem SameTables.isRegistered_eq {other : Walker} (h : SameTables walker other) :
    walker.isRegistered check = other.isRegistered check := by
  rw [isRegistered, h.registered]
  rfl

theorem isBound_bind (walker : Walker) : (walker.bind check).isBound check = true := by
  unfold bind
  split
  · assumption
  · simp [isBound]

theorem serial_bind (walker : Walker) : (walker.bind check).serial = walker.serial := by
  unfold bind
  split <;> rfl

end Tables

/-! ## Adding a check -/

/-- What comes of adding a check.  It may be registered already; it may end in a fault
as it is started; it may be destroyed because its kinds cannot be resolved; or it is
entered for its kinds. -/
inductive Adds (walker : Walker) (check : Check) : Step Descriptor → Prop where
  | known (hknown : walker.isRegistered check = true) :
      Adds walker check ⟨walker, [], .ok (walker.descriptorOf check)⟩
  | unstarted {fault : Fault} (collector : Collector)
      (hnew : walker.isRegistered check = false)
      (hinit : (check.respond .init).fault = some fault) :
      Adds walker check
        ⟨{ walker.bind check with collector }, [⟨check.identity, .init⟩], .error fault⟩
  | refused {cause : ConfigFault} (collector : Collector)
      (hnew : walker.isRegistered check = false) (hinit : (check.respond .init).fault = none)
      (hkinds : resolveKinds check = .error cause) :
      Adds walker check
        ⟨{ walker.bind check with collector },
          [⟨check.identity, .init⟩, ⟨check.identity, .destroy⟩],
          .error ((check.respond .destroy).fault.getD (.config cause))⟩
  | entered {kinds : List Kind} (collector : Collector)
      (hnew : walker.isRegistered check = false) (hinit : (check.respond .init).fault = none)
      (hkinds : resolveKinds check = .ok kinds) :
      Adds walker check
        ⟨{ (walker.bind check).enroll ⟨check, kinds⟩ with collector },
          [⟨check.identity, .init⟩], .ok ⟨check, kinds⟩⟩

theorem adds_add (walker : Walker) (check : Check) : Adds walker check (walker.add check) := by
  unfold add
  cases hknown : walker.isRegistered check with
  | true => exact .known hknown
  | false =>
      obtain ⟨started, hstarted⟩ := (walker.bind check).notify_eq check .init
      rw [faultOf_of_isBound (isBound_bind check walker)] at hstarted
      simp only [hstarted, Bool.false_eq_true, if_false]
      cases hinit : (check.respond .init).fault with
      | some fault => exact .unstarted started hknown hinit
      | none =>
          have hnew : { walker.bind check with collector := started }.isRegistered check = false :=
            ((sameTables_bind walker check).isRegistered_eq check).trans hknown
          simp only [registerStarted, register, hnew, Bool.false_eq_true, if_false]
          cases hkinds : resolveKinds check with
          | ok kinds => exact .entered started hknown hinit hkinds
          | error cause =>
              obtain ⟨destroyed, hdestroyed⟩ :=
                { walker.bind check with collector := started }.notify_eq check .destroy
              have hbound : { walker.bind check with collector := started }.isBound check = true :=
                isBound_bind check walker
              rw [faultOf_of_isBound hbound] at hdestroyed
              simp only [hdestroyed]
              exact .refused destroyed hknown hinit hkinds

theorem add_cases (walker : Walker) (check : Check) :
    SameTables (walker.add check).walker walker ∨
    ∃ kinds, walker.isRegistered check = false ∧ (check.respond .init).fault = none ∧
      resolveKinds check = .ok kinds ∧
      SameTables (walker.add check).walker (walker.enroll ⟨check, kinds⟩) := by
  have hbind := sameTables_bind walker check
  have hadds := walker.adds_add check
  generalize walker.add check = step at hadds
  cases hadds with
  | known _ => exact .inl ⟨rfl, rfl, rfl⟩
  | unstarted collector _ _ => exact .inl ((sameTables_withCollector _ collector).trans hbind)
  | refused collector _ _ _ => exact .inl ((sameTables_withCollector _ collector).trans hbind)
  | entered collector hnew hinit hkinds =>
      exact .inr ⟨_, hnew, hinit, hkinds,
        (sameTables_withCollector _ collector).trans (hbind.enroll _)⟩

theorem setupAll_preserves {holds : Walker → Prop} {fs : FileSystem} {configs : List CheckConfig}
    (hsetup : ∀ config ∈ configs, ∀ walker, holds walker → holds (walker.setup fs config).walker)
    {walker : Walker} (h : holds walker) : holds (walker.setupAll fs configs).walker := by
  induction configs generalizing walker with
  | nil => exact h
  | cons config configs ih =>
      rw [List.forall_mem_cons] at hsetup
      have hfirst := hsetup.1 walker h
      simp only [setupAll]
      generalize walker.setup fs config = step at hfirst
      obtain ⟨walker, calls, fault | convention⟩ := step
      · exact hfirst
      · exact ih hsetup.2 hfirst

/-! ## Checks of conventions -/

/-- The check of a convention, made from one of the configurations, with its settings. -/
structure Employed (fs : FileSystem) (configs : List CheckConfig) (check : Check)
    (convention : Convention) (settings : Settings) : Prop where
  made : ∃ config ∈ configs, ∃ identity,
    Catalogue.standard.find? config.name = some convention ∧
    convention.prepare fs config {} = .ok settings ∧
    check = convention.check fs config identity

/-- The checks of a walker, and those it tells about a kind, are checks of conventions. -/
structure Staffed (fs : FileSystem) (configs : List CheckConfig) (walker : Walker) : Prop where
  checks : ∀ check ∈ walker.checks, ∃ convention settings,
    Employed fs configs check convention settings
  subscribers : ∀ kind, ∀ check ∈ walker.subscribers kind, ∃ convention settings,
    Employed fs configs check convention settings ∧ kind ∈ convention.kinds

section Staff

variable {fs : FileSystem} {configs : List CheckConfig} {walker : Walker}

theorem staffed_empty : Staffed fs configs {} where
  checks _ h := by cases h
  subscribers _ _ h := by cases h

theorem Staffed.of_sameTables {other : Walker} (h : Staffed fs configs walker)
    (hsame : SameTables other walker) : Staffed fs configs other := by
  constructor
  · simpa only [Walker.checks, hsame.descriptors] using h.checks
  · simpa only [Walker.subscribers, hsame.dispatch] using h.subscribers

theorem Staffed.enroll {check : Check} {convention : Convention} {settings : Settings}
    {kinds : List Kind} (h : Staffed fs configs walker)
    (hcheck : Employed fs configs check convention settings)
    (hkinds : ∀ kind ∈ kinds, kind ∈ convention.kinds) :
    Staffed fs configs (walker.enroll ⟨check, kinds⟩) := by
  constructor
  · intro other hother
    simp only [Walker.checks, Walker.enroll, List.map_append, List.mem_append] at hother
    rcases hother with hother | hother
    · exact h.checks other hother
    · obtain rfl := List.mem_singleton.1 hother
      exact ⟨convention, settings, hcheck⟩
  · intro kind other hother
    rcases Dispatch.mem_get_appendAll.1 hother with hother | ⟨hkind, rfl⟩
    · exact h.subscribers kind other hother
    · exact ⟨convention, settings, hcheck, hkinds kind hkind⟩

theorem Staffed.setup {config : CheckConfig} (h : Staffed fs configs walker)
    (hconfig : config ∈ configs) : Staffed fs configs (walker.setup fs config).walker := by
  simp only [Walker.setup]
  cases hfind : Catalogue.standard.find? config.name with
  | none => exact h
  | some convention =>
      let check := convention.check fs config (.configured walker.serial)
      have hbound := sameTables_counted walker check
      rcases add_cases ({ walker with serial := walker.serial + 1 }.bind check) check with
        hsame | ⟨kinds, -, hfault, hkinds, hsame⟩
      · exact h.of_sameTables (hsame.trans hbound)
      · cases hprepare : convention.prepare fs config {} with
        | error fault =>
            simp [check, Convention.check, hprepare] at hfault
        | ok settings =>
            have hemployed : Employed fs configs check convention settings :=
              ⟨config, hconfig, _, hfind, hprepare, rfl⟩
            have hown : ∀ kind ∈ kinds, kind ∈ convention.kinds := by
              intro kind hkind
              rcases (resolved_of_resolveKinds hkinds).mem hkind with hkind | hkind | hkind
              · exact hkind
              · cases hkind
              · exact hkind
            exact (h.enroll hemployed hown).of_sameTables (hsame.trans (hbound.enroll _))

theorem Staffed.setupAll {added : List CheckConfig} (h : Staffed fs configs walker)
    (hadded : added ⊆ configs) : Staffed fs configs (walker.setupAll fs added).walker :=
  setupAll_preserves (fun _ hconfig _ hwalker => hwalker.setup (hadded hconfig)) h

theorem Employed.respond_enter {check : Check} {convention : Convention} {settings : Settings}
    (h : Employed fs configs check convention settings) (source : Source) (site : Site) :
    check.respond (.enter source site) = convention.enter settings (some source) site := by
  obtain ⟨config, -, identity, -, hprepare, rfl⟩ := h
  simp only [Convention.check, hprepare]

theorem Employed.respond_other {check : Check} {convention : Convention} {settings : Settings}
    (h : Employed fs configs check convention settings) {notification : Notification}
    (hother : ∀ source site, notification ≠ .enter source site) :
    check.respond notification = .silent := by
  obtain ⟨config, -, identity, -, hprepare, rfl⟩ := h
  simp only [Convention.check, hprepare]
  split
  · simp_all
  · rename_i source site _ _
    exact absurd rfl (hother source site)
  · rfl

end Staff

/-! ## Default checks -/

theorem add_result (walker : Walker) {check : Check} {kinds : List Kind}
    (hinit : check.respond .init = .silent) (hkinds : resolveKinds check = .ok kinds) :
    ∃ descriptor, (walker.add check).result = .ok descriptor := by
  simp only [add]
  split
  · exact ⟨_, rfl⟩
  · rw [notify_of_silent hinit]
    simp only [registerStarted, register]
    by_cases hregistered : (walker.bind check).isRegistered check = true
    · simp [hregistered]
    · simp [hregistered, hkinds]

theorem setup_result (walker : Walker) {fs : FileSystem} {config : CheckConfig}
    {convention : Convention} {settings : Settings}
    (hfind : Catalogue.standard.find? config.name = some convention)
    (hprepare : convention.prepare fs config {} = .ok settings) (hkinds : config.kinds = []) :
    (walker.setup fs config).result = .ok convention := by
  let check := convention.check fs config (.configured walker.serial)
  have hinit : check.respond .init = .silent := by
    simp only [check, Convention.check, hprepare]
  have hresolve : resolveKinds check = .ok (Kind.inOrder convention.kinds) := by
    simp only [resolveKinds, check, Convention.check, hkinds]
  obtain ⟨descriptor, hadd⟩ :=
    ({ walker with serial := walker.serial + 1 }.bind check).add_result hinit hresolve
  simp only [setup, hfind]
  rw [hadd]
  rfl

theorem setupAll_plain (walker : Walker) (fs : FileSystem) {conventions : List Convention}
    (h : ∀ convention ∈ conventions, convention.needsSettings = false) :
    (walker.setupAll fs (conventions.map fun convention => { name := convention.name })).result =
      .ok conventions := by
  induction conventions generalizing walker with
  | nil => rfl
  | cons convention conventions ih =>
      have hfind : Catalogue.standard.find? convention.name = some convention := by
        cases convention <;> decide
      have hprepare : ∃ settings,
          convention.prepare fs { name := convention.name } {} = .ok settings := by
        have hplain := h convention List.mem_cons_self
        cases convention <;> first | exact ⟨_, rfl⟩ | cases hplain
      obtain ⟨settings, hprepare⟩ := hprepare
      have hfirst := @setup_result walker fs { name := convention.name } _ _ hfind hprepare rfl
      simp only [List.map_cons, setupAll]
      generalize walker.setup fs { name := convention.name } = step at hfirst
      obtain ⟨walker, calls, result⟩ := step
      obtain rfl : result = .ok convention := hfirst
      simp only [ih walker fun other hother => h other (List.mem_cons_of_mem _ hother)]
      rfl

end Walker

end GrammarLint
