import GrammarLint.Fault
import GrammarLint.Text.Blank

/-!
# Kind tables

A table of kinds resolves names and numbers.  A name is looked up after
trimming it.
-/

namespace GrammarLint

open Document Text

structure KindTable where
  kinds : List Kind
  deriving DecidableEq, Repr

namespace KindTable

def standard : KindTable := ⟨Kind.all⟩

def ofKinds (kinds : List Kind) : KindTable := ⟨Kind.inOrder kinds⟩

def size (table : KindTable) : Nat :=
  table.kinds.length

def names (table : KindTable) : List String :=
  table.kinds.map Kind.name

def contains (table : KindTable) (name : String) : Bool :=
  table.names.contains name

/-- The kind with a number; a number may also be given as a whole float or a boolean. -/
def ofNumber (table : KindTable) (number : Value) : Except ConfigFault Kind :=
  let known : Option Kind :=
    match number with
    | .int n => table.kinds.find? fun kind => n == (kind.number : Int)
    | .bool b => table.kinds.find? fun kind => kind.number == b.toNat
    | .float x => table.kinds.find? fun kind => x == Float.ofNat kind.number
    | _ => none
  match known with
  | some kind => .ok kind
  | none => .error (.unknownKind number "")

def lookup (table : KindTable) (name : String) : Except ConfigFault Kind :=
  match table.kinds.find? (·.name == trim name) with
  | some kind => .ok kind
  | none => .error (.unknownKind (.string name) kindsHint)

def lookupValue (table : KindTable) : Value → Except ConfigFault Kind
  | .string name => table.lookup name
  | value => .error (.unknownKind value kindsHint)

end KindTable

end GrammarLint
