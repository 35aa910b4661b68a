import GrammarLint.Check.Basic
import GrammarLint.Text.Lines
import GrammarLint.Text.Utf8

/-!
# The license header

Every `@header` section directly under the root must start with the lines of a
reference notice, which is read from a file.
-/

namespace GrammarLint.Check.Header

open Document Files Text

/-! ## The reference notice -/

def noticeLines (text : String) : List String :=
  dropLastWhile allBlank (lines text)

def loadNotice (fs : FileSystem) (setting : Value) : Except Fault (List String) :=
  match setting with
  | .null => .error (.config .headerUnset)
  | .string name =>
      if allBlank name then .error (.config .headerUnset)
      else
        match fs.read (Path.ofString name) with
        | .error (.os error) => .error (.config (.headerUnreadable name error.message))
        | .error fault => .error (.access fault)
        | .ok bytes =>
            match decodeFile bytes with
            | .error error => .error (.config (.headerUnreadable name error.message))
            | .ok text =>
                match noticeLines text with
                | [] => .error (.config (.headerEmpty name))
                | notice => .ok notice
  | value => .error (.notAPath value.sort)

/-! ## The section -/

def sectionName : String := "header"

def contentLines (text : String) : List String :=
  dropLastWhile (· == "") (lines text)

/-- The content starts on the line after the brace if the line of the brace is empty. -/
def contentStart (content : List String) : Nat :=
  if content.head? = some "" then 1 else 0

def mismatch (expected found : String) : String :=
  "License missing or wrong. Mismatch found!\n" ++ s!"expected: {expected}\nfound: {found}"

def compareFrom (line : Int) (content : List String) (index : Nat) :
    List String → List Remark
  | [] => []
  | expected :: notice =>
      let found := content[index]?
      if found = some expected then compareFrom line content (index + 1) notice
      else [⟨line + index, mismatch expected (found.getD "")⟩]

def judge (notice : List String) (part action : Node) : List Remark :=
  let content := contentLines action.text
  let start := contentStart content
  if content.length ≤ start then [⟨part.line, "License notice is missing."⟩]
  else compareFrom action.line content start notice

def nameAndAction? (node : Node) : Option (Node × Node) :=
  match node.children with
  | [name, action] => some (name, action)
  | [_, name, action] => some (name, action)
  | _ => none

def enter (notice : List String) (site : Site) : List Remark :=
  match site.parent?, nameAndAction? site.node with
  | some parent, some (name, action) =>
      if Kind.grammars.contains parent.kind && name.text == sectionName then
        judge notice site.node action
      else []
  | _, _ => []

end GrammarLint.Check.Header
