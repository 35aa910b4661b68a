import GrammarLint.Document.Reader
import GrammarLint.Document.Writer
import GrammarLint.Files.FileSystem
import GrammarLint.Grammar.Match
import GrammarLint.Kind
import GrammarLint.Text.Utf8

/-!
# Faults

Everything that can go wrong, by cause.  Each cause has one message; a
configuration fault may also have a hint, which is shown on a line of its own.
-/

namespace GrammarLint

open Document Files Text

/-! ## Texts that are no grammar -/

inductive SourceCause where
  | unmatched (detail : String)
  | unexpected (detail : String)
  | unassembled
  | stated (detail : String)
  deriving DecidableEq, Repr

def SourceCause.message : SourceCause → String
  | .unmatched detail => detail
  | .unexpected detail => "unexpected input: " ++ detail
  | .unassembled => "cannot build syntax tree"
  | .stated detail => detail

structure SourceError where
  cause : SourceCause
  file : Option String
  line : Int
  column : Int
  hint : String := ""
  deriving DecidableEq, Repr

def unnamedFile : String := "<string>"

def fileLabel (file : Option String) : String :=
  match file with
  | some name => if name = "" then unnamedFile else name
  | none => unnamedFile

def SourceError.message (e : SourceError) : String :=
  s!"{fileLabel e.file}:{e.line}:{e.column}: {e.cause.message}"

/-! ## Settings that cannot be used -/

inductive ConfigFault where
  | unknownKind (value : Value) (hint : String)
  | unknownCheck (name : String) (known : List String)
  | notACheck (sort : String)
  | illegalKind (name check : String) (acceptable : List Kind)
  | entryNotObject (value : Value)
  | entryWithoutName (fields : List (String × Value))
  | severity (check : String) (value : Value)
  | kindsNotNames (check : String) (value : Value)
  | notBoolean (option check : String) (value : Value)
  | noCheckList
  | unreadable (file : Path) (error : OsError)
  | notADocument (file : Path) (detail : String)
  | headerUnset
  | headerUnreadable (file detail : String)
  | headerEmpty (file : String)
  | stated (message hint : String)

def walkerName : String := "GrammarWalker"

def kindsHint : String :=
  "run `grammar-conventions kinds` for the list of kinds"

def severityWords : List String := ["error", "warning", "info"]

def unknownSeverityMessage (value : Value) : String :=
  s!"unknown severity {literal value}, expected one of " ++ String.intercalate ", " severityWords

namespace ConfigFault

def message : ConfigFault → String
  | .unknownKind value _ => s!"unknown node kind {literal value}"
  | .unknownCheck name _ => s!"{name} is not allowed as a child in {walkerName}"
  | .notACheck sort => s!"{sort} is not allowed as a child in {walkerName}"
  | .illegalKind name check _ => s!"illegal token \"{name}\" in check {check}"
  | .entryNotObject value => s!"check entry must be an object, got {literal value}"
  | .entryWithoutName fields => s!"check entry without a name: {literal (.object fields)}"
  | .severity check value => s!"{check}: {unknownSeverityMessage value}"
  | .kindsNotNames check value =>
      s!"'tokens' of {check} must be a list of node-kind names, got {literal value}"
  | .notBoolean option check value =>
      s!"option {quoted option} of {check} must be a boolean, got {literal value}"
  | .noCheckList => "configuration must be an object with a 'checks' list"
  | .unreadable file error => s!"cannot read configuration {file.text}: {error.message}"
  | .notADocument file detail => s!"configuration {file.text} is not valid JSON: {detail}"
  | .headerUnset => "property headerFile has not been set"
  | .headerUnreadable file detail => s!"unable to load header file {file}: {detail}"
  | .headerEmpty file => s!"header file {file} is empty"
  | .stated message _ => message

def hint : ConfigFault → String
  | .unknownKind _ hint => hint
  | .unknownCheck _ known => "known checks: " ++ String.intercalate ", " known
  | .illegalKind _ _ acceptable =>
      "acceptable tokens: " ++ String.intercalate ", " ((Kind.inOrder acceptable).map Kind.name)
  | .headerUnset => "point headerFile at a file containing the license notice"
  | .stated _ hint => hint
  | _ => ""

end ConfigFault

/-! ## All faults -/

inductive Fault where
  | config (cause : ConfigFault)
  | source (error : SourceError)
  /-- A fault of the checker that is neither of the two before. -/
  | general (message hint : String)
  | access (cause : AccessFault)
  | decode (error : DecodeError)
  | unknownSeverity (value : Value)
  | tooManyDigits (count : Nat)
  /-- A document has half of a pair alone in a text.  What follows from such a text depends on
  where it stands, and is not told. -/
  | halfPair
  | stated (message : String)
  | noSink (check : String)
  | noTokenBefore (symbol : String) (line : Int)
  | notAPath (sort : String)
  | outOfRange

namespace Fault

def message : Fault → String
  | .config cause => cause.message
  | .source error => error.message
  | .general message _ => message
  | .access (.os error) => error.message
  | .access .nullByte => "embedded null byte"
  | .access .noHome => "Could not determine home directory."
  | .access .looseStars => "Invalid pattern: '**' can only be an entire path component"
  | .decode error => error.message
  | .unknownSeverity value => unknownSeverityMessage value
  | .tooManyDigits count => (ReadFault.digits count).message
  | .halfPair => "surrogates not allowed"
  | .stated message => message
  | .noSink check => s!"{check} has no diagnostic sink"
  | .noTokenBefore symbol line => s!"no token found before {symbol} at line {line}"
  | .notAPath sort => s!"expected str, bytes or os.PathLike object, not {sort}"
  | .outOfRange => "list index out of range"

def hint : Fault → String
  | .config cause => cause.hint
  | .source error => error.hint
  | .general _ hint => hint
  | _ => ""

def format (fault : Fault) : String :=
  if fault.hint = "" then fault.message else s!"{fault.message}\n  hint: {fault.hint}"

def isConfig : Fault → Bool
  | .config _ => true
  | _ => false

end Fault

end GrammarLint
