import GrammarLint.Check.Convention
import GrammarLint.KindTable

/-!
# Checks and walkers

A check is anything that answers notifications: one of the conventions with its
settings, or a check given from outside.  A walker holds the checks that are
registered, with the kinds each is told about, and collects what they log.
-/

namespace GrammarLint

/-! ## Notifications -/

/-- What happens to a check: once at the start and the end of its life, at the
start and the end of a walk, and around every node of its kinds. -/
inductive Notification where
  | init
  | destroy
  | begin (source : Source) (root : Site)
  | enter (source : Source) (site : Site)
  | leave (source : Source) (site : Site)
  | finish (source : Source) (root : Site)
  deriving DecidableEq, Repr

/-- The identity of a check.  Two checks that are equal in all else may be
different checks. -/
inductive Identity where
  | configured (serial : Nat)
  | given (serial : Nat)
  deriving DecidableEq, Repr

structure Check where
  identity : Identity
  name : String
  severity : Severity := .error
  configured : List String := []
  defaults : List Kind := Kind.all
  acceptable : List Kind := Kind.all
  /-- The kinds it is told about whatever its configuration asks for. -/
  required : List Kind := []
  respond : Notification → Reaction := fun _ => .silent

def Convention.check (fs : Files.FileSystem) (config : CheckConfig) (identity : Identity)
    (convention : Convention) : Check :=
  let prepared := convention.prepare fs config {}
  { identity
    name := convention.name
    severity := config.severity
    configured := config.kinds
    defaults := convention.kinds
    acceptable := convention.kinds
    respond := fun notification =>
      match notification, prepared with
      | .init, .error fault => { fault := some fault }
      | .enter source site, .ok settings => convention.enter settings (some source) site
      | _, _ => .silent }

/-! ## Dispatch tables -/

structure Dispatch where
  rows : List (Kind × List Check) := []

namespace Dispatch

def row (kind : Kind) : List (Kind × List Check) → List Check
  | [] => []
  | (other, checks) :: rows => if other = kind then checks else row kind rows

def appendRow (kind : Kind) (check : Check) :
    List (Kind × List Check) → List (Kind × List Check)
  | [] => [(kind, [check])]
  | (other, checks) :: rows =>
      if other = kind then (other, checks ++ [check]) :: rows
      else (other, checks) :: appendRow kind check rows

def get (dispatch : Dispatch) (kind : Kind) : List Check :=
  row kind dispatch.rows

def append (dispatch : Dispatch) (kind : Kind) (check : Check) : Dispatch :=
  ⟨appendRow kind check dispatch.rows⟩

theorem row_appendRow (kind other : Kind) (check : Check) (rows : List (Kind × List Check)) :
    row other (appendRow kind check rows) =
      if other = kind then row other rows ++ [check] else row other rows := by
  induction rows with
  | nil => grind [row, appendRow]
  | cons first rows ih => grind [row, appendRow]

theorem get_append (dispatch : Dispatch) (kind other : Kind) (check : Check) :
    (dispatch.append kind check).get other =
      if other = kind then dispatch.get other ++ [check] else dispatch.get other :=
  row_appendRow kind other check dispatch.rows

def appendAll (dispatch : Dispatch) (kinds : List Kind) (check : Check) : Dispatch :=
  kinds.foldl (fun dispatch kind => dispatch.append kind check) dispatch

end Dispatch

/-! ## Walkers -/

structure Descriptor where
  check : Check
  kinds : List Kind

structure Walker where
  descriptors : List Descriptor := []
  registered : List Identity := []
  dispatch : Dispatch := {}
  bound : List Identity := []
  collector : Collector := {}
  serial : Nat := 0

structure Call where
  check : Identity
  notification : Notification
  deriving DecidableEq, Repr

/-- The outcome of an operation: the walker after it, the calls that were made,
and the result or the fault that ended it. -/
structure Step (α : Type) where
  walker : Walker
  calls : List Call := []
  result : Except Fault α

namespace Walker

def checks (walker : Walker) : List Check :=
  walker.descriptors.map (·.check)

def subscribers (walker : Walker) (kind : Kind) : List Check :=
  walker.dispatch.get kind

def isRegistered (walker : Walker) (check : Check) : Bool :=
  walker.registered.contains check.identity

def isBound (walker : Walker) (check : Check) : Bool :=
  walker.bound.contains check.identity

/-! ## Calls -/

def collect (walker : Walker) (check : Check) (remarks : List Remark) : Walker :=
  { walker with
    collector := remarks.foldl
      (fun collector remark =>
        collector.add remark.line remark.message check.name check.severity)
      walker.collector }

/-- Notifies one check.  A check that is not bound cannot log: its first remark
is a fault. -/
def notify (walker : Walker) (check : Check) (notification : Notification) :
    Walker × Option Fault :=
  let reaction := check.respond notification
  if reaction.remarks.isEmpty then (walker, reaction.fault)
  else if walker.isBound check then (walker.collect check reaction.remarks, reaction.fault)
  else (walker, some (.noSink check.name))

/-- Makes calls in order, up to and including the first that ends in a fault;
`done` holds the calls made before, latest first. -/
def notifyAll (walker : Walker) (done : List Call) :
    List (Check × Notification) → Step Unit
  | [] => ⟨walker, done.reverse, .ok ()⟩
  | (check, notification) :: rest =>
      let done := ⟨check.identity, notification⟩ :: done
      match walker.notify check notification with
      | (walker, some fault) => ⟨walker, done.reverse, .error fault⟩
      | (walker, none) => notifyAll walker done rest

end Walker

end GrammarLint
