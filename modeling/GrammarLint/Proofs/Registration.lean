import GrammarLint.Proofs.Setup
import GrammarLint.Proofs.Traversal

/-!
# Registration

Whatever is asked of a walker, in any order and whether it fails or not, its tables
agree with each other: every check is registered once, its identity is kept, and it is
told about a kind exactly if its descriptor lists the kind, in the order of
registration.  A check that is registered stays as it is when it is given again.
-/

namespace GrammarLint.Walker

open Files

/-! ## Operations -/

/-- What may be asked of a walker.  The files may change from one time to the next. -/
inductive Operation where
  | setup (fs : FileSystem) (config : CheckConfig)
  | setupAll (fs : FileSystem) (configs : List CheckConfig)
  | offer (candidate : Candidate)
  | register (check : Check)
  | walk (source : Source)
  | process (fs : FileSystem) (file : String) (text : Option String)
  | destroy

def Operation.run (walker : Walker) : Operation → Walker
  | .setup fs config => (walker.setup fs config).walker
  | .setupAll fs configs => (walker.setupAll fs configs).walker
  | .offer candidate => (walker.offer candidate).walker
  | .register check => (walker.register check).walker
  | .walk source => (walker.walk source).walker
  | .process fs file text => (walker.process fs file text).1
  | .destroy => walker.destroy.walker

def Made (walker : Walker) (check : Check) : Prop :=
  ∀ serial, check.identity = .configured serial → serial < walker.serial

def Operation.Possible (walker : Walker) : Operation → Prop
  | .offer (.check check) => walker.Made check
  | .register check => walker.Made check
  | _ => True

/-- The walker comes from a new one by operations.  Checks that are given with one
identity are one check, which may have changed in all else from one time to the next. -/
inductive Reachable : Walker → Prop where
  | fresh (collector : Collector) : Reachable { collector }
  | after {walker : Walker} (operation : Operation) (hwalker : Reachable walker)
      (hpossible : operation.Possible walker) : Reachable (operation.run walker)

/-! ## The invariant -/

structure Consistent (walker : Walker) : Prop where
  distinct : (walker.checks.map Check.identity).Nodup
  registered : walker.registered = walker.checks.map Check.identity
  dispatch : ∀ kind, walker.subscribers kind =
    (walker.descriptors.filter (kind ∈ ·.kinds)).map Descriptor.check
  resolved : ∀ descriptor ∈ walker.descriptors, Resolved descriptor

structure Sound (walker : Walker) : Prop extends Consistent walker where
  made : ∀ check ∈ walker.checks, walker.Made check

theorem sound_fresh (collector : Collector) : Sound { collector } where
  distinct := List.nodup_nil
  registered := rfl
  dispatch _ := rfl
  resolved _ h := by cases h
  made _ h := by cases h

section Invariant

variable {walker : Walker}

theorem Sound.of_sameTables {other : Walker} (h : Sound walker) (hsame : SameTables other walker)
    (hserial : walker.serial ≤ other.serial) : Sound other := by
  have hchecks : other.checks = walker.checks := by
    rw [checks, hsame.descriptors]
    rfl
  constructor
  · constructor
    · rw [hchecks]
      exact h.distinct
    · rw [hchecks, hsame.registered]
      exact h.registered
    · intro kind
      rw [subscribers, hsame.dispatch, hsame.descriptors]
      exact h.dispatch kind
    · rw [hsame.descriptors]
      exact h.resolved
  · intro check hcheck serial hidentity
    rw [hchecks] at hcheck
    exact Nat.lt_of_lt_of_le (h.made check hcheck serial hidentity) hserial

theorem Consistent.isRegistered_iff (h : Consistent walker) (check : Check) :
    walker.isRegistered check = true ↔ check.identity ∈ walker.checks.map Check.identity := by
  rw [isRegistered, List.contains_iff_mem, h.registered]

theorem Sound.enroll {check : Check} {kinds : List Kind} (h : Sound walker)
    (hnew : walker.isRegistered check = false) (hmade : walker.Made check)
    (hresolved : Resolved ⟨check, kinds⟩) : Sound (walker.enroll ⟨check, kinds⟩) := by
  have hchecks : (walker.enroll ⟨check, kinds⟩).checks = walker.checks ++ [check] := by
    simp [checks, Walker.enroll]
  have hidentity : check.identity ∉ walker.checks.map Check.identity := by
    rw [← h.isRegistered_iff, hnew]
    exact Bool.false_ne_true
  constructor
  · constructor
    · rw [hchecks, List.map_append, List.nodup_append]
      refine ⟨h.distinct, by simp, ?_⟩
      rintro identity hmember other hother rfl
      simp only [List.map_cons, List.map_nil, List.mem_singleton] at hother
      exact hidentity (hother ▸ hmember)
    · rw [hchecks, List.map_append, ← h.registered]
      rfl
    · intro kind
      have hcount : kinds.count kind = if kind ∈ kinds then 1 else 0 :=
        hresolved.nodup.count
      change (walker.dispatch.appendAll kinds check).get kind = _
      rw [Dispatch.get_appendAll, hcount]
      change walker.subscribers kind ++ _ =
        ((walker.descriptors ++ [(⟨check, kinds⟩ : Descriptor)]).filter _).map _
      rw [h.dispatch, List.filter_append, List.map_append]
      by_cases hkind : kind ∈ kinds <;> simp [hkind]
    · change ∀ descriptor ∈ walker.descriptors ++ [⟨check, kinds⟩], _
      exact List.forall_mem_append.2 ⟨h.resolved, List.forall_mem_singleton.2 hresolved⟩
  · rw [hchecks]
    exact List.forall_mem_append.2 ⟨h.made, List.forall_mem_singleton.2 hmade⟩

/-! ## Steps -/

theorem serial_add (walker : Walker) (check : Check) :
    (walker.add check).walker.serial = walker.serial := by
  have hadds := walker.adds_add check
  generalize walker.add check = step at hadds
  cases hadds with
  | known _ => rfl
  | unstarted => exact serial_bind check walker
  | refused => exact serial_bind check walker
  | entered => exact serial_bind check walker

theorem Sound.add {check : Check} (h : Sound walker) (hmade : walker.Made check) :
    Sound (walker.add check).walker := by
  have hserial : walker.serial ≤ (walker.add check).walker.serial :=
    Nat.le_of_eq (walker.serial_add check).symm
  rcases walker.add_cases check with hsame | ⟨kinds, hnew, -, hkinds, hsame⟩
  · exact h.of_sameTables hsame hserial
  · exact (h.enroll hnew hmade (resolved_of_resolveKinds hkinds)).of_sameTables hsame hserial

theorem Sound.offer {candidate : Candidate} (h : Sound walker)
    (hpossible : (Operation.offer candidate).Possible walker) :
    Sound (walker.offer candidate).walker := by
  cases candidate with
  | check check => exact h.add hpossible
  | value value => exact h

theorem register_cases (walker : Walker) (check : Check) :
    (walker.isRegistered check = true ∧
      walker.register check = ⟨walker, [], .ok (walker.descriptorOf check)⟩) ∨
    (walker.isRegistered check = false ∧ ∃ cause, resolveKinds check = .error cause ∧
      walker.register check = ⟨walker, [], .error (.config cause)⟩) ∨
    (walker.isRegistered check = false ∧ ∃ kinds, resolveKinds check = .ok kinds ∧
      walker.register check = ⟨walker.enroll ⟨check, kinds⟩, [], .ok ⟨check, kinds⟩⟩) := by
  unfold register
  cases walker.isRegistered check with
  | true => exact .inl ⟨rfl, rfl⟩
  | false =>
      cases resolveKinds check with
      | error cause => exact .inr (.inl ⟨rfl, cause, rfl, rfl⟩)
      | ok kinds => exact .inr (.inr ⟨rfl, kinds, rfl, rfl⟩)

theorem Sound.register {check : Check} (h : Sound walker) (hmade : walker.Made check) :
    Sound (walker.register check).walker := by
  rcases walker.register_cases check with
    ⟨-, hstep⟩ | ⟨-, cause, -, hstep⟩ | ⟨hnew, kinds, hkinds, hstep⟩
  · rwa [hstep]
  · rwa [hstep]
  · rw [hstep]
    exact h.enroll hnew hmade (resolved_of_resolveKinds hkinds)

theorem Sound.setup {fs : FileSystem} {config : CheckConfig} (h : Sound walker) :
    Sound (walker.setup fs config).walker := by
  simp only [Walker.setup]
  cases Catalogue.standard.find? config.name with
  | none => exact h
  | some convention =>
      let check := convention.check fs config (.configured walker.serial)
      let counted : Walker := { walker with serial := walker.serial + 1 }
      have hserial : (counted.bind check).serial = walker.serial + 1 := serial_bind check counted
      have hbound : Sound (counted.bind check) :=
        h.of_sameTables (sameTables_counted walker check) (by omega)
      have hmade : (counted.bind check).Made check := by
        intro serial hidentity
        cases hidentity
        omega
      exact hbound.add hmade

theorem Sound.setupAll {fs : FileSystem} {configs : List CheckConfig} (h : Sound walker) :
    Sound (walker.setupAll fs configs).walker :=
  setupAll_preserves (fun _ _ _ hwalker => hwalker.setup) h

end Invariant

/-! ## Walks -/

theorem notifyAll_walker (walker : Walker) (calls : List (Check × Notification)) :
    ∃ collector, (walker.notifyAll [] calls).walker = { walker with collector } := by
  have hmakes := walker.makes_notifyAll calls
  generalize walker.notifyAll [] calls = step at hmakes
  cases hmakes with
  | all collector => exact ⟨collector, rfl⟩
  | upTo collector => exact ⟨collector, rfl⟩

theorem process_walker (walker : Walker) (fs : FileSystem) (file : String)
    (text : Option String) :
    ∃ collector, (walker.process fs file text).1 = { walker with collector } := by
  have hwalk (given : Except Fault String) : ∃ collector,
      ((walker.turnTo file).walkText file given).1.walker = { walker with collector } := by
    unfold walkText
    split
    · exact ⟨_, rfl⟩
    · split
      · exact ⟨_, rfl⟩
      · exact (walker.turnTo file).notifyAll_walker _
  obtain ⟨collector, hcollector⟩ := hwalk (textOf fs file text)
  rw [process_eq, reportOf]
  split
  · exact ⟨collector, hcollector⟩
  · rw [collectFault, hcollector]
    exact ⟨_, rfl⟩

theorem Sound.run {walker : Walker} {operation : Operation} (h : Sound walker)
    (hpossible : operation.Possible walker) : Sound (operation.run walker) := by
  have hcollects {after : Walker} (hafter : ∃ collector, after = { walker with collector }) :
      Sound after := by
    obtain ⟨collector, rfl⟩ := hafter
    exact h.of_sameTables (sameTables_withCollector walker collector) (Nat.le_refl _)
  cases operation with
  | setup fs config => exact h.setup
  | setupAll fs configs => exact h.setupAll
  | offer candidate => exact h.offer hpossible
  | register check => exact h.register hpossible
  | walk source => exact hcollects (walker.notifyAll_walker _)
  | process fs file text => exact hcollects (walker.process_walker fs file text)
  | destroy => exact hcollects (walker.notifyAll_walker _)

theorem Reachable.sound {walker : Walker} (h : Reachable walker) : Sound walker := by
  induction h with
  | fresh collector => exact sound_fresh collector
  | after operation _ hpossible ih => exact ih.run hpossible

/-! ## Reachable walkers -/

theorem Consistent.nodup_subscribers {walker : Walker} (h : Consistent walker) (kind : Kind) :
    ((walker.subscribers kind).map Check.identity).Nodup := by
  rw [h.dispatch]
  have hsome := (List.filter_sublist (p := fun descriptor : Descriptor => kind ∈ descriptor.kinds)
    (l := walker.descriptors)).map Descriptor.check
  exact h.distinct.sublist (hsome.map Check.identity)

theorem Consistent.descriptorOf_mem {walker : Walker} (h : Consistent walker) {check : Check}
    (hknown : walker.isRegistered check = true) :
    walker.descriptorOf check ∈ walker.descriptors ∧
      (walker.descriptorOf check).check.identity = check.identity := by
  obtain ⟨other, hother, hidentity⟩ := List.mem_map.1 ((h.isRegistered_iff check).1 hknown)
  obtain ⟨descriptor, hdescriptor, rfl⟩ := List.mem_map.1 hother
  have hsome : (walker.descriptors.find? (·.check.identity == check.identity)).isSome = true := by
    rw [List.find?_isSome]
    exact ⟨descriptor, hdescriptor, by simpa using hidentity⟩
  obtain ⟨found, hfound⟩ := Option.isSome_iff_exists.1 hsome
  rw [descriptorOf, hfound, Option.getD_some]
  exact ⟨List.mem_of_find?_eq_some hfound, by simpa using List.find?_some hfound⟩

/-- The tables of every reachable walker agree; of no kind is a check told twice; and a
check that is registered, given again in either way, is not started, changes nothing,
and has the descriptor that it had. -/
theorem Reachable.tables_agree {walker : Walker} (h : Reachable walker) :
    Consistent walker ∧ (∀ kind, ((walker.subscribers kind).map Check.identity).Nodup) ∧
      ∀ check, walker.isRegistered check = true →
        ∃ descriptor ∈ walker.descriptors, descriptor.check.identity = check.identity ∧
          walker.offer (.check check) = ⟨walker, [], .ok descriptor⟩ ∧
          walker.register check = ⟨walker, [], .ok descriptor⟩ := by
  have hconsistent := h.sound.toConsistent
  refine ⟨hconsistent, hconsistent.nodup_subscribers, fun check hknown => ?_⟩
  obtain ⟨hmember, hidentity⟩ := hconsistent.descriptorOf_mem hknown
  refine ⟨walker.descriptorOf check, hmember, hidentity, ?_, ?_⟩
  · exact if_pos hknown
  · exact if_pos hknown

theorem Reachable.foldl {walker : Walker} {operations : List Operation} (h : Reachable walker)
    (hpossible : ∀ operation ∈ operations, ∀ walker, operation.Possible walker) :
    Reachable (operations.foldl Operation.run walker) := by
  induction operations generalizing walker with
  | nil => exact h
  | cons operation operations ih =>
      rw [List.forall_mem_cons] at hpossible
      exact ih (h.after operation (hpossible.1 walker)) hpossible.2

def Reachable.sampleCheck : Check :=
  { identity := .given 0, name := "Recorder", configured := ["TOKENS", " OPTIONS"],
    required := [.rule] }

def Reachable.sampleRefused : Check :=
  { identity := .given 1, name := "Recorder", configured := ["TOKENS", "NONE"] }

def Reachable.sampleFiles : FileSystem :=
  { current := [], entries := [] }

/-- Checks are registered, set up, refused for a kind that is unknown or as no check at
all, and given again; between, a file is processed. -/
def Reachable.sampleOperations : List Operation :=
  [.register sampleCheck, .setup sampleFiles { name := "TokensOrderCheck" },
    .process sampleFiles "a.g" (some ""), .offer (.check sampleRefused), .offer (.value .null),
    .offer (.check sampleCheck), .destroy]

def Reachable.sampleWalker : Walker :=
  sampleOperations.foldl Operation.run {}

theorem Reachable.of_sampleOperations : Reachable sampleWalker := by
  have hgiven (walker : Walker) {check : Check} (serial : Nat)
      (hidentity : check.identity = .given serial) : walker.Made check := by
    intro other hother
    cases hidentity.symm.trans hother
  refine (Reachable.fresh {}).foldl ?_
  simp only [sampleOperations, List.forall_mem_cons]
  exact ⟨fun walker => hgiven walker 0 rfl, fun _ => trivial, fun _ => trivial,
    fun walker => hgiven walker 1 rfl, fun _ => trivial, fun walker => hgiven walker 0 rfl,
    fun _ => trivial, by simp⟩

theorem Reachable.tables_agree_sample :
    Reachable sampleWalker ∧ Consistent sampleWalker ∧
      (∀ kind, ((sampleWalker.subscribers kind).map Check.identity).Nodup) ∧
      sampleWalker.isRegistered sampleCheck = true ∧
      ∃ descriptor ∈ sampleWalker.descriptors,
        descriptor.check.identity = sampleCheck.identity ∧
        sampleWalker.offer (.check sampleCheck) = ⟨sampleWalker, [], .ok descriptor⟩ ∧
        sampleWalker.register sampleCheck = ⟨sampleWalker, [], .ok descriptor⟩ := by
  have hreachable := Reachable.of_sampleOperations
  have hknown : sampleWalker.isRegistered sampleCheck = true := by
    decide +kernel
  obtain ⟨hconsistent, hsubscribers, hagain⟩ := hreachable.tables_agree
  exact ⟨hreachable, hconsistent, hsubscribers, hknown, hagain _ hknown⟩

end GrammarLint.Walker
