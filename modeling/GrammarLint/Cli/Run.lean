import GrammarLint.Cli.Invocation
import GrammarLint.Cli.Log
import GrammarLint.Files.Select
import GrammarLint.Tree.Dump
import GrammarLint.Walker.Process
import GrammarLint.Walker.Setup

/-!
# Running commands

A command turns the files that exist into an outcome: an exit code, the text
printed, the file written and the records logged.  The code is zero if all is
well, one if a grammar violates a convention or is no grammar, and two if the
work could not be done.
-/

namespace GrammarLint.Cli

open Document Files

structure Outcome where
  code : Nat
  output : String := ""
  written : Option (Path × String) := none
  log : List Record := []
  deriving DecidableEq, Repr

def codeOk : Nat := 0

def codeViolations : Nat := 1

def codeFailure : Nat := 2

namespace Outcome

def failed (code : Nat) (log : List Record) (message : String) : Outcome :=
  { code, log := log ++ [.error message] }

def unexpected (log : List Record) (fault : Fault) : Outcome :=
  failed codeFailure log ("Unhandled exception: " ++ fault.message)

def deliver (fs : FileSystem) (target : Option String) (code : Nat) (log : List Record)
    (text : String) : Outcome :=
  match target with
  | none => { code, output := text, log }
  | some name =>
      if name = "-" then { code, output := text, log }
      else
        match fs.openForWriting (Path.ofString name) with
        | .ok file => { code, written := some (file, text), log }
        | .error fault => unexpected log (.access fault)

end Outcome

/-! ## Reports -/

def reportText (diagnostics : List Diagnostic) : String :=
  let lines := String.join (diagnostics.map fun diagnostic => diagnostic.text ++ "\n")
  if diagnostics.isEmpty then lines
  else
    let files := (diagnostics.map (·.file)).eraseDups.length
    lines ++ s!"\n--- {diagnostics.length} diagnostic(s) in {files} file(s) ---\n"

def report (diagnostics : List Diagnostic) : ReportFormat → String
  | .text => reportText diagnostics
  | .json => renderIndented 0 (.list (diagnostics.map Diagnostic.value)) ++ "\n"

/-! ## Records of the work -/

def parsedRecord (source : Source) : Record :=
  let rules := (source.root.childrenOfKind .rule).length
  ⟨.debug, .source,
    s!"parsed {fileLabel source.file}: {source.tokens.size} tokens, {rules} rules"⟩

def noticeRecords (fs : FileSystem) (config : CheckConfig) : List Record :=
  if config.name = Convention.header.name then
    let setting := config.get headerOption .null
    match Check.Header.loadNotice fs setting with
    | .ok notice =>
        [⟨.debug, .header,
          s!"loaded {notice.length} header line(s) from {plainText setting}"⟩]
    | .error _ => []
  else []

def registeredRecord (descriptor : Descriptor) : Record :=
  let kinds :=
    if descriptor.kinds.isEmpty then "no kinds"
    else String.intercalate ", " (descriptor.kinds.map Kind.name)
  ⟨.debug, .walker, s!"registered {descriptor.check.name} for {kinds}"⟩

/-- The records of setting up checks, of which the last may not have been registered. -/
def setupRecords (fs : FileSystem) : List CheckConfig → List Descriptor → List Record
  | [], _ => []
  | config :: _, [] => noticeRecords fs config
  | config :: configs, descriptor :: descriptors =>
      noticeRecords fs config ++ registeredRecord descriptor ::
        setupRecords fs configs descriptors

def fileRecords (report : FileReport) : List Record :=
  ⟨.debug, .walker, "processing " ++ report.file⟩ ::
    report.source.toList.map parsedRecord ++
    report.fault.toList.map fun _ =>
      ⟨.debug, .walker, "exception while processing " ++ report.file⟩

/-! ## Checking -/

def nonEmpty? (text : Option String) : Option String :=
  text.filter (· != "")

def requestedConfigs (fs : FileSystem) (request : CheckRequest) :
    Except Fault (List CheckConfig × List Record) :=
  match nonEmpty? request.config with
  | none => .ok (defaultConfigs request.headerFile, [])
  | some file => do
      let path := Path.ofString file
      let configs ← loadConfigs fs path
      let header : List CheckConfig :=
        (nonEmpty? request.headerFile).toList.map fun file =>
          { name := Convention.header.name, options := [(headerOption, .string file)] }
      return (configs ++ header,
        [⟨.info, .config, s!"loaded {configs.length} check(s) from {path.text}"⟩])

def setupFailed (log : List Record) (fault : Fault) : Outcome :=
  if fault.isConfig then
    .failed codeFailure log ("invalid configuration: " ++ fault.format)
  else .unexpected log fault

def checkFiles (fs : FileSystem) (request : CheckRequest) (walker : Walker)
    (log : List Record) (files : List Path) : Outcome :=
  let counts : Record :=
    ⟨.info, .program,
      s!"checking {files.length} file(s) with {walker.checks.length} check(s)"⟩
  let (_, _, reports) := walker.processAll fs (files.map Path.text)
  let diagnostics := Diagnostic.sort (reports.flatMap (·.diagnostics))
  let code := if diagnostics.isEmpty then codeOk else codeViolations
  .deliver fs request.output code (log ++ counts :: reports.flatMap fileRecords)
    (report diagnostics request.format)

def runCheck (fs : FileSystem) (request : CheckRequest) : Outcome :=
  match requestedConfigs fs request with
  | .error fault => setupFailed [] fault
  | .ok (configs, loaded) =>
      let step := Walker.setupAll {} fs configs
      let log := loaded ++ setupRecords fs configs step.walker.descriptors
      match step.result with
      | .error fault => setupFailed log fault
      | .ok _ =>
          match grammarFiles fs request.extension request.operands with
          | .error fault => .unexpected log (.access fault)
          | .ok [] =>
              .failed codeFailure log
                ("no grammar files found in " ++ String.intercalate ", " request.operands)
          | .ok files => checkFiles fs request step.walker log files

/-! ## Showing a tree -/

def showTree (source : Source) : TreeFormat → String
  | .tree => source.root.indented 0
  | .sexp => source.root.sexp

def runParse (fs : FileSystem) (request : TreeRequest) : Outcome :=
  let path := Path.ofString request.operand
  match Walker.readText fs path with
  | .error (.access (.os error)) =>
      .failed codeFailure [] s!"cannot read {path.text}: {error.message}"
  | .error fault => .unexpected [] fault
  | .ok text =>
      match Source.parse text (some path.text) with
      | .error error =>
          .failed codeViolations [] ("parse error: " ++ (Fault.source error).format)
      | .ok source =>
          .deliver fs request.output codeOk [parsedRecord source]
            (showTree source request.format ++ "\n")

/-! ## Listing kinds -/

def kindLine (kind : Kind) : String :=
  let digits := toString kind.number
  String.ofList (List.replicate (4 - digits.length) ' ') ++ digits ++ "  " ++ kind.name ++ "\n"

def kindLines (table : KindTable) : String :=
  String.join (table.kinds.map kindLine)

/-! ## The program -/

def programName : String := "grammar-conventions"

def version : String := "0.3.0"

def usageText : String :=
  s!"usage: {programName} [-h] [--version] [-v] check PATH... | parse SOURCE | kinds\n"

def runCommand (fs : FileSystem) : Command → Outcome
  | .check request => runCheck fs request
  | .parse request => runParse fs request
  | .kinds => { code := codeOk, output := kindLines KindTable.standard }

/-- Arguments that ask for nothing to be run only have an exit code, and the
version its text. -/
def stopped : Stop → Outcome
  | .help => { code := codeOk }
  | .version => { code := codeOk, output := s!"{programName} {version}\n" }
  | .misuse _ => { code := codeFailure }

def run (fs : FileSystem) (arguments : List String) : Outcome :=
  match Invocation.ofArguments arguments with
  | .error stop => stopped stop
  | .ok invocation =>
      let outcome := runCommand fs invocation.command
      { outcome with log := shown invocation.verbosity outcome.log }

end GrammarLint.Cli
