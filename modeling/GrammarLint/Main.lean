import GrammarLint.Cli.Run

/-!
# The program

Takes a snapshot of the files that the arguments name, runs the command on it,
and prints, logs and writes what comes out.
-/

namespace GrammarLint.Program

open Cli Document Files

/-! ## Snapshots -/

def placeText (place : List String) : String :=
  "/" ++ String.intercalate "/" place

def namesAt? (place : List String) : IO (Option (List String)) := do
  let current ← IO.currentDir
  try
    let entries ← (current / placeText place).readDir
    return some (entries.toList.map (·.fileName))
  catch _ => return none

def probe (place : List String) : IO (Option Entry) := do
  if (← namesAt? place).isSome then return some .directory
  try
    let bytes ← IO.FS.readBinFile (placeText place)
    return some (.file bytes.toList)
  catch _ => return none

def placesAlong (place : List String) : List String → List (List String)
  | [] => [place]
  | part :: parts =>
      place :: placesAlong (if part = ".." then place.dropLast else place ++ [part]) parts

def placesOf (fs : FileSystem) (path : Path) : List (List String) :=
  placesAlong (if path.isAbsolute then [] else fs.current) path.parts

def survey (fs : FileSystem) (places : List (List String)) : IO FileSystem := do
  let mut entries := fs.entries
  for place in places do
    if (entries.lookup place).isNone then
      if let some entry ← probe place then
        entries := entries ++ [(place, entry)]
  return { fs with entries }

partial def placesBelow (place : List String) : IO (List (List String)) := do
  let names := (← namesAt? place).getD []
  let found ← names.mapM fun name => do
    let below := place ++ [name]
    return below :: (← placesBelow below)
  return found.flatten

def surveyTree (fs : FileSystem) (name : String) : IO FileSystem := do
  let path := Path.ofString name
  let places := placesOf fs path
  let below ← placesBelow (places.getLastD [])
  survey fs (places ++ below)

def surveyFile (fs : FileSystem) (name : String) : IO FileSystem :=
  survey fs (placesOf fs (Path.ofString name))

def surveyTarget (fs : FileSystem) (name : String) : IO FileSystem :=
  match fs.expandHome (Path.ofString name) with
  | .ok path => survey fs (placesOf fs (fs.absolute path))
  | .error _ => return fs

def noticeFiles (fs : FileSystem) (request : CheckRequest) : List String :=
  match requestedConfigs fs request with
  | .error _ => []
  | .ok (configs, _) => configs.filterMap fun config =>
      match config.get headerOption .null with
      | .string name => some name
      | _ => none

def surveyCommand (fs : FileSystem) : Command → IO FileSystem
  | .check request => do
      let fs ← request.operands.foldlM surveyTree fs
      let fs ← request.config.toList.foldlM surveyFile fs
      let fs ← (noticeFiles fs request).foldlM surveyFile fs
      request.output.toList.foldlM surveyTarget fs
  | .parse request => do
      let fs ← surveyFile fs request.operand
      request.output.toList.foldlM surveyTarget fs
  | .kinds => return fs

def snapshot (arguments : List String) : IO FileSystem := do
  let current ← IO.currentDir
  let home ← IO.getEnv "HOME"
  let fs : FileSystem := {
    current := (Path.ofString current.toString).parts
    entries := []
    homes := home.toList.map fun directory => ("", Path.ofString directory) }
  match Invocation.ofArguments arguments with
  | .ok invocation => surveyCommand fs invocation.command
  | .error _ => return fs

/-! ## Effects -/

def explain (arguments : List String) : IO Unit :=
  match Invocation.ofArguments arguments with
  | .error .help => IO.print usageText
  | .error (.misuse cause) =>
      IO.eprint (usageText ++ s!"{programName}: error: {cause.message}\n")
  | _ => return ()

def perform (outcome : Outcome) : IO Unit := do
  for record in outcome.log do
    IO.eprintln record.text
  IO.print outcome.output
  if let some (path, text) := outcome.written then
    IO.FS.createDirAll path.parent.text
    IO.FS.writeFile path.text text

end GrammarLint.Program

open GrammarLint in
def main (arguments : List String) : IO UInt32 := do
  let fs ← Program.snapshot arguments
  let outcome := Cli.run fs arguments
  Program.explain arguments
  Program.perform outcome
  return UInt32.ofNat outcome.code
