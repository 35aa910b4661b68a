import GrammarLint.Proofs.Registration

/-!
# Rejected checks

When a check cannot be added, registered or set up, the tables of the walker stay as
they are.  A check that was started and then refused is destroyed once, one that did
not start is not.  Of a list of configurations, those before the first that fails are
set up, in order.
-/

namespace GrammarLint.Walker

open Files

/-! ## When checks are rejected -/

theorem Resolved.not_overreaches {descriptor : Descriptor} (h : Resolved descriptor) :
    ¬Overreaches descriptor.check descriptor.check.configured := by
  rintro ⟨name, hname, hnone⟩
  obtain ⟨kind, hkind⟩ := (h.of_configured (List.ne_nil_of_mem hname)).1 name hname
  exact hnone kind hkind

theorem add_fails_iff (walker : Walker) (check : Check) :
    (∃ fault, (walker.add check).result = .error fault) ↔
      walker.isRegistered check = false ∧
        ((check.respond .init).fault ≠ none ∨ Overreaches check check.configured) := by
  have hadds := walker.adds_add check
  generalize walker.add check = step at hadds
  cases hadds with
  | known hknown => simp [hknown]
  | unstarted collector hnew hinit => simp [hnew, hinit]
  | refused collector hnew hinit hkinds =>
      have hover := overreaches_of_resolveKinds hkinds
      simp [hnew, hover]
  | entered collector hnew hinit hkinds =>
      have hover := (resolved_of_resolveKinds hkinds).not_overreaches
      simp [hinit, hover]

theorem register_fails_iff (walker : Walker) (check : Check) :
    (∃ fault, (walker.register check).result = .error fault) ↔
      walker.isRegistered check = false ∧ Overreaches check check.configured := by
  rcases walker.register_cases check with
    ⟨hknown, hstep⟩ | ⟨hnew, cause, hkinds, hstep⟩ | ⟨hnew, kinds, hkinds, hstep⟩
  · simp [hstep, hknown]
  · have hover := overreaches_of_resolveKinds hkinds
    simp [hstep, hnew, hover]
  · have hover := (resolved_of_resolveKinds hkinds).not_overreaches
    simp [hstep, hover]

/-! ## What is left of a rejected check -/

section Failure

variable {walker : Walker} {check : Check} {fault : Fault}

theorem sameTables_of_add (h : (walker.add check).result = .error fault) :
    SameTables (walker.add check).walker walker := by
  have hbind := sameTables_bind walker check
  have hadds := walker.adds_add check
  generalize walker.add check = step at hadds h
  cases hadds with
  | known => cases h
  | unstarted collector => exact (sameTables_withCollector _ collector).trans hbind
  | refused collector => exact (sameTables_withCollector _ collector).trans hbind
  | entered => cases h

theorem sameTables_of_offer {candidate : Candidate}
    (h : (walker.offer candidate).result = .error fault) :
    SameTables (walker.offer candidate).walker walker := by
  cases candidate with
  | check check => exact sameTables_of_add h
  | value value => exact ⟨rfl, rfl, rfl⟩

theorem sameTables_of_register (h : (walker.register check).result = .error fault) :
    SameTables (walker.register check).walker walker := by
  rcases walker.register_cases check with ⟨-, hstep⟩ | ⟨-, cause, -, hstep⟩ | ⟨-, kinds, -, hstep⟩
  · rw [hstep] at h
    cases h
  · rw [hstep]
    exact ⟨rfl, rfl, rfl⟩
  · rw [hstep] at h
    cases h

theorem calls_of_add (h : (walker.add check).result = .error fault) :
    ((check.respond .init).fault ≠ none →
      (walker.add check).calls = [⟨check.identity, .init⟩]) ∧
    ((check.respond .init).fault = none →
      (walker.add check).calls = [⟨check.identity, .init⟩, ⟨check.identity, .destroy⟩] ∧
      ((check.respond .destroy).fault = none →
        ∃ cause, resolveKinds check = .error cause ∧ fault = .config cause)) := by
  have hadds := walker.adds_add check
  generalize walker.add check = step at hadds h
  cases hadds with
  | known => cases h
  | unstarted collector hnew hinit => simp [hinit]
  | @refused cause collector hnew hinit hkinds =>
      refine ⟨fun hsome => absurd hinit hsome, fun _ => ⟨rfl, fun hdestroy => ⟨cause, hkinds, ?_⟩⟩⟩
      rw [hdestroy] at h
      cases h
      rfl
  | entered => cases h

end Failure

/-! ## Checks at the end of the tables -/

/-- The later walker has the checks of the descriptors behind those that the walker has, in
every table: each is told about its kinds. -/
structure Extends (walker : Walker) (added : List Descriptor) (later : Walker) : Prop where
  descriptors : later.descriptors = walker.descriptors ++ added
  registered : later.registered = walker.registered ++ added.map (·.check.identity)
  subscribers : ∀ kind, later.subscribers kind =
    walker.subscribers kind ++ (added.filter (kind ∈ ·.kinds)).map (·.check)

section Extension

variable {walker later last : Walker} {added more : List Descriptor}

theorem SameTables.extends_nil (h : SameTables later walker) : Extends walker [] later where
  descriptors := by rw [h.descriptors, List.append_nil]
  registered := by rw [h.registered, List.map_nil, List.append_nil]
  subscribers kind := by
    rw [Walker.subscribers, h.dispatch]
    exact (List.append_nil _).symm

theorem Extends.of_sameTables (h : Extends walker added later)
    (hsame : SameTables last later) : Extends walker added last where
  descriptors := by rw [hsame.descriptors, h.descriptors]
  registered := by rw [hsame.registered, h.registered]
  subscribers kind := by
    rw [← h.subscribers, Walker.subscribers, hsame.dispatch]
    rfl

theorem Extends.append (h : Extends walker added later) (hmore : Extends later more last) :
    Extends walker (added ++ more) last where
  descriptors := by rw [hmore.descriptors, h.descriptors, List.append_assoc]
  registered := by rw [hmore.registered, h.registered, List.map_append, List.append_assoc]
  subscribers kind := by
    rw [hmore.subscribers, h.subscribers, List.filter_append, List.map_append, List.append_assoc]

theorem extends_enroll (walker : Walker) {descriptor : Descriptor}
    (hkinds : descriptor.kinds.Nodup) : Extends walker [descriptor] (walker.enroll descriptor) where
  descriptors := rfl
  registered := rfl
  subscribers kind := by
    have hcount : descriptor.kinds.count kind = if kind ∈ descriptor.kinds then 1 else 0 :=
      hkinds.count
    change (walker.dispatch.appendAll descriptor.kinds descriptor.check).get kind = _
    rw [Dispatch.get_appendAll, hcount, List.filter_singleton]
    by_cases hkind : kind ∈ descriptor.kinds
    · simp [hkind, Walker.subscribers]
    · simp [hkind, Walker.subscribers]

end Extension

/-! ## Configurations -/

/-- The descriptor is that of the check which a configuration names. -/
structure Describes (fs : FileSystem) (config : CheckConfig) (descriptor : Descriptor) : Prop where
  made : ∃ convention identity, Catalogue.standard.find? config.name = some convention ∧
    descriptor.check = convention.check fs config identity
  kinds : resolveKinds descriptor.check = .ok descriptor.kinds

section Configurations

variable {walker : Walker} {fs : FileSystem}

theorem Sound.isRegistered_next (h : Sound walker) {check : Check}
    (hidentity : check.identity = .configured walker.serial) :
    walker.isRegistered check = false := by
  rw [Bool.eq_false_iff, Ne, h.isRegistered_iff, hidentity]
  intro hmember
  obtain ⟨other, hother, hsame⟩ := List.mem_map.1 hmember
  exact Nat.lt_irrefl _ (h.made other hother _ hsame)

theorem Sound.isRegistered_counted (h : Sound walker) {check : Check}
    (hidentity : check.identity = .configured walker.serial) :
    ({ walker with serial := walker.serial + 1 }.bind check).isRegistered check = false :=
  ((sameTables_counted walker check).isRegistered_eq check).trans (h.isRegistered_next hidentity)

theorem Describes.resolved {config : CheckConfig} {descriptor : Descriptor}
    (h : Describes fs config descriptor) : Resolved descriptor :=
  resolved_of_resolveKinds h.kinds

theorem Sound.setup_cases (h : Sound walker) (config : CheckConfig) :
    (∃ fault, (walker.setup fs config).result = .error fault ∧
      SameTables (walker.setup fs config).walker walker) ∨
    ∃ convention descriptor, (walker.setup fs config).result = .ok convention ∧
      Describes fs config descriptor ∧
      Extends walker [descriptor] (walker.setup fs config).walker := by
  simp only [Walker.setup]
  cases hfind : Catalogue.standard.find? config.name with
  | none => exact .inl ⟨_, rfl, rfl, rfl, rfl⟩
  | some convention =>
      dsimp only
      generalize hcheck : convention.check fs config (.configured walker.serial) = check
      have hbound := sameTables_counted walker check
      have hnew := h.isRegistered_counted (by rw [← hcheck]; rfl : check.identity = _)
      generalize { walker with serial := walker.serial + 1 }.bind check = counted at hbound hnew ⊢
      have hagain := (sameTables_bind counted check).trans hbound
      have hadds := counted.adds_add check
      generalize counted.add check = step at hadds
      cases hadds with
      | known hknown => cases hnew.symm.trans hknown
      | unstarted collector =>
          exact .inl ⟨_, rfl, (sameTables_withCollector _ collector).trans hagain⟩
      | refused collector =>
          exact .inl ⟨_, rfl, (sameTables_withCollector _ collector).trans hagain⟩
      | @entered kinds collector _ _ hkinds =>
          have hentered : SameTables _ (walker.enroll ⟨check, kinds⟩) :=
            (sameTables_withCollector _ collector).trans (hagain.enroll _)
          have hextends := extends_enroll walker (resolved_of_resolveKinds hkinds).nodup
          exact .inr ⟨convention, ⟨check, kinds⟩, rfl,
            ⟨⟨convention, _, hfind, hcheck.symm⟩, hkinds⟩, hextends.of_sameTables hentered⟩

theorem setupAll_cons_error {config : CheckConfig} {fault : Fault} (configs : List CheckConfig)
    (h : (walker.setup fs config).result = .error fault) :
    (walker.setupAll fs (config :: configs)).walker = (walker.setup fs config).walker ∧
      (walker.setupAll fs (config :: configs)).result = .error fault := by
  simp only [setupAll]
  generalize walker.setup fs config = step at h
  obtain ⟨after, calls, result⟩ := step
  obtain rfl : result = .error fault := h
  exact ⟨rfl, rfl⟩

theorem setupAll_cons_ok {config : CheckConfig} {convention : Convention}
    (configs : List CheckConfig) (h : (walker.setup fs config).result = .ok convention) :
    (walker.setupAll fs (config :: configs)).walker =
        ((walker.setup fs config).walker.setupAll fs configs).walker ∧
      (walker.setupAll fs (config :: configs)).result =
        ((walker.setup fs config).walker.setupAll fs configs).result.map (convention :: ·) := by
  simp only [setupAll]
  generalize walker.setup fs config = step at h
  obtain ⟨after, calls, result⟩ := step
  obtain rfl : result = .ok convention := h
  exact ⟨rfl, rfl⟩

theorem Sound.enrolled_of_setupAll {configs : List CheckConfig} {conventions : List Convention}
    (h : Sound walker) (hresult : (walker.setupAll fs configs).result = .ok conventions) :
    ∃ descriptors, List.Forall₂ (Describes fs) configs descriptors ∧
      Extends walker descriptors (walker.setupAll fs configs).walker := by
  induction configs generalizing walker conventions with
  | nil => exact ⟨[], .nil, SameTables.extends_nil ⟨rfl, rfl, rfl⟩⟩
  | cons config configs ih =>
      rcases h.setup_cases config with
        ⟨fault, hfault, -⟩ | ⟨convention, descriptor, hfirst, hdescribes, hextends⟩
      · rw [(setupAll_cons_error configs hfault).2] at hresult
        cases hresult
      · obtain ⟨hwalker, hrest⟩ := setupAll_cons_ok configs hfirst
        rw [hrest] at hresult
        cases hothers : ((walker.setup fs config).walker.setupAll fs configs).result with
        | error fault =>
            rw [hothers] at hresult
            cases hresult
        | ok others =>
            obtain ⟨descriptors, hdescribed, hmore⟩ := ih h.setup hothers
            refine ⟨descriptor :: descriptors, .cons hdescribes hdescribed, ?_⟩
            rw [hwalker]
            exact hextends.append hmore

theorem setupAll_split {configs : List CheckConfig} {fault : Fault}
    (h : (walker.setupAll fs configs).result = .error fault) :
    ∃ before config after conventions, configs = before ++ config :: after ∧
      (walker.setupAll fs before).result = .ok conventions ∧
      ((walker.setupAll fs before).walker.setup fs config).result = .error fault ∧
      (walker.setupAll fs configs).walker =
        ((walker.setupAll fs before).walker.setup fs config).walker := by
  induction configs generalizing walker with
  | nil => cases h
  | cons config configs ih =>
      cases hfirst : (walker.setup fs config).result with
      | error first =>
          obtain ⟨hwalker, hresult⟩ := setupAll_cons_error configs hfirst
          rw [hresult] at h
          cases h
          exact ⟨[], config, configs, [], rfl, rfl, hfirst, hwalker⟩
      | ok convention =>
          obtain ⟨hwalker, hresult⟩ := setupAll_cons_ok configs hfirst
          rw [hresult] at h
          cases hrest : ((walker.setup fs config).walker.setupAll fs configs).result with
          | ok conventions =>
              rw [hrest] at h
              cases h
          | error later =>
              rw [hrest] at h
              cases h
              obtain ⟨before, failing, after, conventions, rfl, hbefore, hfails, hleft⟩ := ih hrest
              obtain ⟨hreached, hok⟩ := setupAll_cons_ok before hfirst
              refine ⟨config :: before, failing, after, convention :: conventions, rfl, ?_, ?_, ?_⟩
              · rw [hok, hbefore]
                rfl
              · rw [hreached]
                exact hfails
              · rw [hwalker, hreached]
                exact hleft

end Configurations

/-- A rejected check leaves the tables of a walker as they were.  Checks are rejected
if they do not start or ask for a kind that is unknown or that they do not accept; one
that was started and is refused is destroyed once, and one that did not start is not.
Of configurations, the checks of those before the first that fails are entered behind the
earlier ones in their order, each for its kinds, and no others. -/
theorem Reachable.rejected_unchanged {walker : Walker} (h : Reachable walker) :
    (∀ candidate fault, (walker.offer candidate).result = .error fault →
      SameTables (walker.offer candidate).walker walker) ∧
    (∀ check fault, (walker.register check).result = .error fault →
      SameTables (walker.register check).walker walker) ∧
    (∀ fs config fault, (walker.setup fs config).result = .error fault →
      SameTables (walker.setup fs config).walker walker) ∧
    (∀ check, (∃ fault, (walker.offer (.check check)).result = .error fault) ↔
      walker.isRegistered check = false ∧
        ((check.respond .init).fault ≠ none ∨ Overreaches check check.configured)) ∧
    (∀ check, (∃ fault, (walker.register check).result = .error fault) ↔
      walker.isRegistered check = false ∧ Overreaches check check.configured) ∧
    (∀ check fault, (walker.offer (.check check)).result = .error fault →
      ((check.respond .init).fault ≠ none →
        (walker.offer (.check check)).calls = [⟨check.identity, .init⟩]) ∧
      ((check.respond .init).fault = none →
        (walker.offer (.check check)).calls =
          [⟨check.identity, .init⟩, ⟨check.identity, .destroy⟩] ∧
        ((check.respond .destroy).fault = none →
          ∃ cause, resolveKinds check = .error cause ∧ fault = .config cause))) ∧
    ∀ fs configs fault, (walker.setupAll fs configs).result = .error fault →
      ∃ before config after conventions descriptors, configs = before ++ config :: after ∧
        (walker.setupAll fs before).result = .ok conventions ∧
        ((walker.setupAll fs before).walker.setup fs config).result = .error fault ∧
        List.Forall₂
          (fun config descriptor => Describes fs config descriptor ∧ Resolved descriptor)
          before descriptors ∧
        Extends walker descriptors (walker.setupAll fs configs).walker := by
  have hsetup {reached : Walker} (hsound : Sound reached) {fs : FileSystem}
      {config : CheckConfig} {fault : Fault}
      (hfault : (reached.setup fs config).result = .error fault) :
      SameTables (reached.setup fs config).walker reached := by
    rcases hsound.setup_cases config with ⟨-, -, hsame⟩ | ⟨convention, -, hok, -⟩
    · exact hsame
    · cases hfault.symm.trans hok
  refine ⟨fun _ _ => sameTables_of_offer, fun _ _ => sameTables_of_register,
    fun _ _ _ => hsetup h.sound, walker.add_fails_iff, walker.register_fails_iff,
    fun _ _ => calls_of_add, fun fs configs fault hfault => ?_⟩
  obtain ⟨before, config, after, conventions, hconfigs, hbefore, hfails, hleft⟩ :=
    setupAll_split hfault
  obtain ⟨descriptors, hdescribed, hextends⟩ := h.sound.enrolled_of_setupAll hbefore
  refine ⟨before, config, after, conventions, descriptors, hconfigs, hbefore, hfails,
    hdescribed.imp fun _ _ hdescribes => ⟨hdescribes, hdescribes.resolved⟩, ?_⟩
  rw [hleft]
  exact hextends.of_sameTables (hsetup h.sound.setupAll hfails)

def Reachable.sampleConfigs : List CheckConfig :=
  [{ name := "TokensOrderCheck" }, { name := "HeaderCheck" }, { name := "TokensSpaceCheck" }]

theorem Reachable.rejected_unchanged_sample :
    Reachable sampleWalker ∧
    (∃ fault, (sampleWalker.offer (.check sampleRefused)).result = .error fault) ∧
    SameTables (sampleWalker.offer (.check sampleRefused)).walker sampleWalker ∧
    (sampleWalker.offer (.check sampleRefused)).calls =
      [⟨.given 1, .init⟩, ⟨.given 1, .destroy⟩] ∧
    (∃ before config after conventions descriptors,
      sampleConfigs = before ++ config :: after ∧
      (sampleWalker.setupAll sampleFiles before).result = .ok conventions ∧
      ((sampleWalker.setupAll sampleFiles before).walker.setup sampleFiles config).result =
        .error (.config .headerUnset) ∧
      List.Forall₂
        (fun config descriptor => Describes sampleFiles config descriptor ∧ Resolved descriptor)
        before descriptors ∧
      Extends sampleWalker descriptors (sampleWalker.setupAll sampleFiles sampleConfigs).walker) ∧
    (sampleWalker.setupAll sampleFiles sampleConfigs).walker.checks.map Check.name =
      sampleWalker.checks.map Check.name ++ ["TokensOrderCheck"] := by
  have hreachable := Reachable.of_sampleOperations
  obtain ⟨hoffer, -, -, -, -, hcalls, hconfigs⟩ := hreachable.rejected_unchanged
  obtain ⟨fault, hfault⟩ : ∃ fault,
      (sampleWalker.offer (.check sampleRefused)).result = .error fault := ⟨_, rfl⟩
  refine ⟨hreachable, ⟨_, hfault⟩, hoffer _ _ hfault, ?_, ?_, ?_⟩
  · exact ((hcalls _ _ hfault).2 rfl).1
  · exact hconfigs sampleFiles _ _ (by rfl)
  · decide +kernel

end GrammarLint.Walker
