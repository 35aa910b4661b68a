import GrammarLint.Cli.Arguments

/-!
# Invocations

What the program is asked to do.  It has three commands: to check grammar
files, to show the tree of one, and to list the kinds of nodes.
-/

namespace GrammarLint.Cli

inductive ReportFormat where
  | text
  | json
  deriving DecidableEq, Repr

inductive TreeFormat where
  | tree
  | sexp
  deriving DecidableEq, Repr

structure CheckRequest where
  operands : List String := []
  config : Option String := none
  headerFile : Option String := none
  extension : String := "g"
  format : ReportFormat := .text
  output : Option String := none
  deriving DecidableEq, Repr

structure TreeRequest where
  operand : String := ""
  format : TreeFormat := .tree
  output : Option String := none
  deriving DecidableEq, Repr

inductive Command where
  | check (request : CheckRequest)
  | parse (request : TreeRequest)
  | kinds
  deriving DecidableEq, Repr

structure Invocation where
  verbosity : Nat
  command : Command
  deriving DecidableEq, Repr

/-! ## Options -/

def choose {β : Type} (choices : List (String × β)) (value : String) : Except Stop β :=
  match choices.lookup value with
  | some choice => .ok choice
  | none => .error (.misuse (.notAChoice value (choices.map (·.1))))

def reportFormats : List (String × ReportFormat) :=
  [("text", .text), ("json", .json)]

def treeFormats : List (String × TreeFormat) :=
  [("tree", .tree), ("sexp", .sexp)]

def helpSwitch (α : Type) : Switch α :=
  ⟨["-h", "--help"], .flag fun _ => .error .help⟩

def settingSwitch {α : Type} (spellings : List String) (set : String → α → α) : Switch α :=
  ⟨spellings, .value fun value settings => .ok (set value settings)⟩

def checkUsage : Usage CheckRequest where
  switches := [
    helpSwitch CheckRequest,
    settingSwitch ["-c", "--config"] fun file request => { request with config := some file },
    settingSwitch ["--header-file"] fun file request => { request with headerFile := some file },
    settingSwitch ["--extension"] fun extension request => { request with extension },
    ⟨["-f", "--format"], .value fun word request => do
      let format ← choose reportFormats word
      return { request with format }⟩,
    settingSwitch ["-o", "--output"] fun file request => { request with output := some file }]
  arity := .many
  accept := fun operands request => .ok { request with operands }
  required := some "PATH"

def parseUsage : Usage TreeRequest where
  switches := [
    helpSwitch TreeRequest,
    ⟨["-f", "--format"], .value fun word request => do
      let format ← choose treeFormats word
      return { request with format }⟩,
    settingSwitch ["-o", "--output"] fun file request => { request with output := some file }]
  arity := .one
  accept := fun operands request =>
    match operands with
    | [operand] => .ok { request with operand }
    | _ => .error (.misuse (.missingOperand "SOURCE"))
  required := some "SOURCE"

def kindsUsage : Usage Unit where
  switches := [helpSwitch Unit]

/-! ## Commands -/

structure Draft where
  verbosity : Nat := 0
  command : Option Command := none
  leftOver : List String := []

def commandNames : List String := ["check", "parse", "kinds"]

def readCommand (texts : List String) (draft : Draft) : Except Stop Draft :=
  match texts with
  | "check" :: arguments => do
      let (request, leftOver) ← checkUsage.read {} arguments
      return { draft with command := some (.check request), leftOver }
  | "parse" :: arguments => do
      let (request, leftOver) ← parseUsage.read {} arguments
      return { draft with command := some (.parse request), leftOver }
  | "kinds" :: arguments => do
      let (_, leftOver) ← kindsUsage.read () arguments
      return { draft with command := some .kinds, leftOver }
  | texts => .error (.misuse (.notAChoice (texts.headD "") commandNames))

def mainUsage : Usage Draft where
  switches := [
    helpSwitch Draft,
    ⟨["--version"], .flag fun _ => .error .version⟩,
    ⟨["-v", "--verbose"], .flag fun draft =>
      .ok { draft with verbosity := draft.verbosity + 1 }⟩]
  arity := .everything
  accept := readCommand

def Invocation.ofArguments (arguments : List String) : Except Stop Invocation := do
  let (draft, leftOver) ← mainUsage.read {} arguments
  match leftOver ++ draft.leftOver, draft.command with
  | [], some command => return ⟨draft.verbosity, command⟩
  | [], none => .error (.misuse .noCommand)
  | leftOver, _ => .error (.misuse (.leftOver leftOver))

end GrammarLint.Cli
