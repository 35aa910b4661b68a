import GrammarLint.Walker.Basic

/-!
# Registering checks

Adding a check binds it to the collector, starts it, and registers it for the
kinds it is to be told about.  Adding or registering a check a second time
changes nothing.  When the kinds cannot be resolved the check is not registered,
and if it had been started it is destroyed.
-/

namespace GrammarLint.Walker

open Files

/-! ## Kinds -/

def configuredKinds (check : Check) : List String → Except ConfigFault (List Kind)
  | [] => .ok []
  | name :: names =>
      match KindTable.standard.lookup name with
      | .error cause => .error cause
      | .ok kind =>
          if check.acceptable.contains kind then
            (configuredKinds check names).map (kind :: ·)
          else .error (.illegalKind name check.name check.acceptable)

def resolveKinds (check : Check) : Except ConfigFault (List Kind) :=
  match check.configured with
  | [] => .ok (Kind.inOrder check.defaults)
  | names =>
      (configuredKinds check names).map fun kinds => Kind.inOrder (check.required ++ kinds)

/-! ## Registration -/

def descriptorOf (walker : Walker) (check : Check) : Descriptor :=
  (walker.descriptors.find? (·.check.identity == check.identity)).getD ⟨check, []⟩

/-- Enters a check with its kinds at the end of every table. -/
def enroll (walker : Walker) (descriptor : Descriptor) : Walker :=
  { walker with
    descriptors := walker.descriptors ++ [descriptor]
    registered := walker.registered ++ [descriptor.check.identity]
    dispatch := walker.dispatch.appendAll descriptor.kinds descriptor.check }

def register (walker : Walker) (check : Check) : Step Descriptor :=
  if walker.isRegistered check then ⟨walker, [], .ok (walker.descriptorOf check)⟩
  else
    match resolveKinds check with
    | .error cause => ⟨walker, [], .error (.config cause)⟩
    | .ok kinds => ⟨walker.enroll ⟨check, kinds⟩, [], .ok ⟨check, kinds⟩⟩

def bind (walker : Walker) (check : Check) : Walker :=
  if walker.isBound check then walker
  else { walker with bound := check.identity :: walker.bound }

def registerStarted (walker : Walker) (check : Check) : Step Descriptor :=
  match walker.register check with
  | ⟨walker, calls, .ok descriptor⟩ => ⟨walker, calls, .ok descriptor⟩
  | ⟨walker, calls, .error fault⟩ =>
      match walker.notify check .destroy with
      | (walker, later) =>
          ⟨walker, calls ++ [⟨check.identity, .destroy⟩], .error (later.getD fault)⟩

def add (walker : Walker) (check : Check) : Step Descriptor :=
  if walker.isRegistered check then ⟨walker, [], .ok (walker.descriptorOf check)⟩
  else
    match (walker.bind check).notify check .init with
    | (walker, some fault) => ⟨walker, [⟨check.identity, .init⟩], .error fault⟩
    | (walker, none) =>
        let step := walker.registerStarted check
        { step with calls := ⟨check.identity, .init⟩ :: step.calls }

inductive Candidate where
  | check (check : Check)
  | value (value : Document.Value)

def offer (walker : Walker) : Candidate → Step Descriptor
  | .check check => walker.add check
  | .value value => ⟨walker, [], .error (.config (.notACheck value.sort))⟩

/-! ## Configurations -/

def setup (walker : Walker) (fs : FileSystem) (config : CheckConfig) : Step Convention :=
  match Catalogue.standard.find? config.name with
  | none =>
      ⟨walker, [], .error (.config (.unknownCheck config.name Catalogue.standard.names))⟩
  | some convention =>
      let check := convention.check fs config (.configured walker.serial)
      let step := ({ walker with serial := walker.serial + 1 }.bind check).add check
      { step with result := step.result.map fun _ => convention }

/-- Sets up checks in order, up to the first that fails. -/
def setupAll (walker : Walker) (fs : FileSystem) :
    List CheckConfig → Step (List Convention)
  | [] => ⟨walker, [], .ok []⟩
  | config :: configs =>
      match walker.setup fs config with
      | ⟨walker, calls, .error fault⟩ => ⟨walker, calls, .error fault⟩
      | ⟨walker, calls, .ok convention⟩ =>
          let step := setupAll walker fs configs
          ⟨step.walker, calls ++ step.calls, step.result.map (convention :: ·)⟩

def destroy (walker : Walker) : Step Unit :=
  walker.notifyAll [] (walker.checks.map fun check => (check, .destroy))

end GrammarLint.Walker
