import GrammarLint.Diagnostic

/-!
# Configurations

The settings of one check: its name, the kinds it is to be told about, its
severity, and any further options.  `CheckConfig.ofValue` reads one entry of a
configuration document, `configsOfValue` a whole document.
-/

namespace GrammarLint

open Document Files Text

structure CheckConfig where
  name : String
  options : List (String × Value) := []
  kinds : List String := []
  severity : Severity := .error

namespace CheckConfig

def get (config : CheckConfig) (key : String) (default : Value) : Value :=
  (getField? key config.options).getD default

def getBool (config : CheckConfig) (key : String) (default : Value) : Except ConfigFault Bool :=
  match config.get key default with
  | .bool value => .ok value
  | .string text =>
      match lowerLatin (trim text) with
      | "true" => .ok true
      | "false" => .ok false
      | _ => .error (.notBoolean key config.name (.string text))
  | value => .error (.notBoolean key config.name value)

end CheckConfig

def reservedKeys : List String := ["name", "severity", "tokens", "kinds"]

def headerOption : String := "headerFile"

def textsOf? : List Value → Option (List String)
  | [] => some []
  | .string text :: values => (textsOf? values).map (text :: ·)
  | _ :: _ => none

def splitKinds (text : String) : List String :=
  ((text.toList.splitOn ',').map fun part => trim (String.ofList part)).filter (· != "")

def kindNames (check : String) (value : Value) : Except ConfigFault (List String) :=
  match value with
  | .null => .ok []
  | .string text => .ok (splitKinds text)
  | .list values =>
      match textsOf? values with
      | some names => .ok names
      | none => .error (.kindsNotNames check value)
  | _ => .error (.kindsNotNames check value)

/-- A relative path option is taken from the directory of the configuration. -/
def resolveOption (fs : FileSystem) (base : Option Path) (value : Value) :
    Except Fault Value :=
  match base, value with
  | some base, .string text =>
      if text = "" then .ok value
      else
        match fs.expandHome (Path.ofString text) with
        | .error fault => .error (.access fault)
        | .ok path => .ok (if path.isAbsolute then value else .string (base.join path).text)
  | _, _ => .ok value

def resolveOptions (fs : FileSystem) (base : Option Path) :
    List (String × Value) → Except Fault (List (String × Value))
  | [] => .ok []
  | (key, value) :: options => do
      let value ← if key = headerOption then resolveOption fs base value else .ok value
      let options ← resolveOptions fs base options
      return (key, value) :: options

def liftConfig {α : Type} : Except ConfigFault α → Except Fault α
  | .ok value => .ok value
  | .error cause => .error (.config cause)

def CheckConfig.ofValue (fs : FileSystem) (base : Option Path) (value : Value) :
    Except Fault CheckConfig :=
  match value with
  | .object fields =>
      match getField? "name" fields with
      | some (.string name) =>
          if name = "" then .error (.config (.entryWithoutName fields))
          else
            let given := (getField? "severity" fields).getD (.string Severity.error.word)
            match Severity.ofValue? given with
            | none => .error (.config (.severity name given))
            | some severity => do
                let options ← resolveOptions fs base
                  (fields.filter fun (key, _) => !reservedKeys.contains key)
                let raw := (getField? "tokens" fields).getD
                  ((getField? "kinds" fields).getD .null)
                let kinds ← liftConfig (kindNames name raw)
                return ⟨name, options, kinds, severity⟩
      | _ => .error (.config (.entryWithoutName fields))
  | _ => .error (.config (.entryNotObject value))

def configsOfEntries (fs : FileSystem) (base : Option Path) :
    List Value → Except Fault (List CheckConfig)
  | [] => .ok []
  | entry :: entries => do
      let config ← CheckConfig.ofValue fs base entry
      let configs ← configsOfEntries fs base entries
      return config :: configs

/-- Reads a configuration: an object whose field `checks` lists the entries. -/
def configsOfValue (fs : FileSystem) (base : Option Path) (value : Value) :
    Except Fault (List CheckConfig) :=
  match value with
  | .object fields =>
      match getField? "checks" fields with
      | some (.list entries) => configsOfEntries fs base entries
      | _ => .error (.config .noCheckList)
  | _ => .error (.config .noCheckList)

def loadConfigs (fs : FileSystem) (path : Path) : Except Fault (List CheckConfig) :=
  match fs.read path with
  | .error (.os error) => .error (.config (.unreadable path error))
  | .error fault => .error (.access fault)
  | .ok bytes =>
      match decodeFile bytes with
      | .error error => .error (.decode error)
      | .ok text =>
          match Document.read text.toList with
          | .ok (some value) => configsOfValue fs (some (fs.absolute path).parent) value
          | .ok none => .error .halfPair
          | .error ⟨.digits count, _⟩ => .error (.tooManyDigits count)
          | .error error => .error (.config (.notADocument path (error.message text.toList)))

end GrammarLint
