import GrammarLint.Text.Utf8
import GrammarLint.Walker.Walk

/-!
# Processing files

Processing a file drops what was collected before, reads and parses the file,
and walks its tree.  Whatever goes wrong on the way becomes one diagnostic at
line zero, after those that were already logged.
-/

namespace GrammarLint

open Files Text

structure FileReport where
  file : String
  source : Option Source := none
  fault : Option Fault := none
  diagnostics : List Diagnostic

namespace Walker

def faultMessage (fault : Fault) : String :=
  "Got an exception - " ++ fault.message

def readText (fs : FileSystem) (path : Path) : Except Fault String :=
  match fs.read path with
  | .error fault => .error (.access fault)
  | .ok bytes =>
      match decodeFile bytes with
      | .error error => .error (.decode error)
      | .ok text => .ok text

def collectFault (walker : Walker) (fault : Fault) : Walker :=
  { walker with
    collector := walker.collector.add 0 (faultMessage fault) walkerName .error }

def turnTo (walker : Walker) (file : String) : Walker :=
  { walker with collector := walker.collector.reset.beginFile (some file) }

def walkText (walker : Walker) (file : String) (text : Except Fault String) :
    Step Unit × Option Source :=
  match text with
  | .error fault => (⟨walker, [], .error fault⟩, none)
  | .ok text =>
      match Source.parse text (some file) with
      | .error error => (⟨walker, [], .error (.source error)⟩, none)
      | .ok source => (walker.walk source, some source)

def process (walker : Walker) (fs : FileSystem) (file : String) (text : Option String) :
    Walker × List Call × FileReport :=
  let given :=
    match text with
    | some text => .ok text
    | none => readText fs (Path.ofString file)
  let (step, source) := (walker.turnTo file).walkText file given
  match step.result with
  | .ok () => (step.walker, step.calls, ⟨file, source, none, step.walker.collector.diagnostics⟩)
  | .error fault =>
      let after := step.walker.collectFault fault
      (after, step.calls, ⟨file, source, some fault, after.collector.diagnostics⟩)

def processAll (walker : Walker) (fs : FileSystem) :
    List String → Walker × List Call × List FileReport
  | [] => (walker, [], [])
  | file :: files =>
      let (walker, calls, report) := walker.process fs file none
      let (walker, more, reports) := processAll walker fs files
      (walker, calls ++ more, report :: reports)

end Walker

end GrammarLint
