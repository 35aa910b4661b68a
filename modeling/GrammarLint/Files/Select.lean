import GrammarLint.Files.FileSystem

/-!
# Grammar files

Operands name grammar files, or directories below which the grammar files are
those with a given extension, at any depth.
-/

namespace GrammarLint.Files

def extensionPattern (extension : String) : String :=
  "*." ++ String.ofList (extension.toList.dropWhile (· == '.'))

def grammarFilesOf (fs : FileSystem) (extension operand : String) :
    Except AccessFault (List Path) :=
  let path := Path.ofString operand
  if fs.isDirectory path then
    match PathStep.ofString? (extensionPattern extension) with
    | some steps => .ok (fs.filesBelow path (.anyDepth :: steps))
    | none => .error .looseStars
  else .ok [path]

def grammarFiles (fs : FileSystem) (extension : String) :
    List String → Except AccessFault (List Path)
  | [] => .ok []
  | operand :: operands => do
      let first ← grammarFilesOf fs extension operand
      let others ← grammarFiles fs extension operands
      return first ++ others

end GrammarLint.Files
