import GrammarLint.Files.Glob
import GrammarLint.Files.Path
import GrammarLint.Text.Quoted

/-!
# Files

A file system as a value: the current directory, and the files and directories
that exist, each with the components of its absolute path.  A directory also
exists if something exists below it.
-/

namespace GrammarLint.Files

inductive Entry where
  | file (bytes : List UInt8)
  | directory
  deriving DecidableEq, Repr

structure FileSystem where
  current : List String
  entries : List (List String × Entry)
  /-- Home directories by user; the user without a name is the current one. -/
  homes : List (String × Path) := []
  deriving DecidableEq, Repr

/-! ## Errors -/

inductive OsFault where
  | noEntry
  | exists
  | notDirectory
  | isDirectory
  deriving DecidableEq, Repr

def OsFault.code : OsFault → Nat
  | .noEntry => 2
  | .exists => 17
  | .notDirectory => 20
  | .isDirectory => 21

def OsFault.message : OsFault → String
  | .noEntry => "No such file or directory"
  | .exists => "File exists"
  | .notDirectory => "Not a directory"
  | .isDirectory => "Is a directory"

structure OsError where
  fault : OsFault
  path : Path
  deriving DecidableEq, Repr

def OsError.message (e : OsError) : String :=
  s!"[Errno {e.fault.code}] {e.fault.message}: {Text.quoted e.path.text}"

inductive AccessFault where
  | os (error : OsError)
  | nullByte
  | noHome
  | looseStars
  deriving DecidableEq, Repr

namespace FileSystem

/-! ## Looking up -/

def isAbove (place below : List String) : Bool :=
  place.isPrefixOf below

def get? (fs : FileSystem) (place : List String) : Option Entry :=
  match fs.entries.lookup place with
  | some entry => some entry
  | none =>
      if isAbove place fs.current || fs.entries.any (fun entry => isAbove place entry.1) then
        some .directory
      else none

def follow (fs : FileSystem) (place : List String) : List String → Except OsFault (List String)
  | [] => .ok place
  | part :: parts =>
      match fs.get? place with
      | none => .error .noEntry
      | some (.file _) => .error .notDirectory
      | some .directory =>
          follow fs (if part = ".." then place.dropLast else place ++ [part]) parts

def locate (fs : FileSystem) (path : Path) : Except OsFault (List String) :=
  fs.follow (if path.isAbsolute then [] else fs.current) path.parts

def entry (fs : FileSystem) (path : Path) : Except OsFault Entry :=
  match fs.locate path with
  | .error fault => .error fault
  | .ok place =>
      match fs.get? place with
      | some found => .ok found
      | none => .error .noEntry

def isDirectory (fs : FileSystem) (path : Path) : Bool :=
  !path.hasNull && fs.entry path matches .ok .directory

def read (fs : FileSystem) (path : Path) : Except AccessFault (List UInt8) :=
  if path.hasNull then .error .nullByte
  else
    match fs.entry path with
    | .ok (.file bytes) => .ok bytes
    | .ok .directory => .error (.os ⟨.isDirectory, path⟩)
    | .error fault => .error (.os ⟨fault, path⟩)

/-- The path from the root with every `..` taken, without asking what exists. -/
def absolute (fs : FileSystem) (path : Path) : Path :=
  let start := if path.isAbsolute then [] else fs.current
  ⟨1, path.parts.foldl
    (fun place part => if part = ".." then place.dropLast else place ++ [part]) start⟩

def expandHome (fs : FileSystem) (path : Path) : Except AccessFault Path :=
  match path.isAbsolute, path.parts with
  | false, first :: rest =>
      match first.toList with
      | '~' :: user =>
          match fs.homes.lookup (String.ofList user) with
          | some home => .ok { home with parts := home.parts ++ rest }
          | none => .error .noHome
      | _ => .ok path
  | _, _ => .ok path

/-! ## Searching -/

/-- The files below a directory whose paths from there the pattern accepts, in
the order of their paths, each given below the path of the directory. -/
def filesBelow (fs : FileSystem) (directory : Path) (pattern : List PathStep) : List Path :=
  match fs.locate directory with
  | .error _ => []
  | .ok place =>
      let files := fs.entries.filterMap fun (whole, entry) =>
        match entry with
        | .file _ =>
            if isAbove place whole && place.length < whole.length then
              some (whole.drop place.length)
            else none
        | .directory => none
      let found := files.filter (PathStep.accepts pattern)
      let sorted := found.mergeSort fun a b => !Path.precedes b a
      sorted.map fun parts => { directory with parts := directory.parts ++ parts }

/-! ## Writing -/

/-- Why the directories down to `place` cannot be made, if they cannot: a file
stands there, or on the way. -/
def makeDirectories (fs : FileSystem) (path : Path) : Except OsFault Unit :=
  match fs.entry path with
  | .ok .directory => .ok ()
  | .ok (.file _) => .error .exists
  | .error .noEntry => .ok ()
  | .error fault => .error fault

def openForWriting (fs : FileSystem) (path : Path) : Except AccessFault Path :=
  match fs.expandHome path with
  | .error fault => .error fault
  | .ok path =>
      if path.hasNull then .error .nullByte
      else
        let target := fs.absolute path
        match fs.makeDirectories target.parent with
        | .error fault => .error (.os ⟨fault, target.parent⟩)
        | .ok () =>
            match fs.entry target with
            | .ok .directory => .error (.os ⟨.isDirectory, target⟩)
            | _ => .ok target

end FileSystem

end GrammarLint.Files
