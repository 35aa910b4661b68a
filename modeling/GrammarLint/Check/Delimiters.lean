import GrammarLint.Check.Basic

/-!
# Delimiters of rules

The colon and the semicolon of a rule stand on lines of their own, at the first
indentation.  A delimiter has a line of its own if the token before it starts
on another line.
-/

namespace GrammarLint.Check.Delimiters

def judge (source : Option Source) (symbol : String) (delimiter : Node) : Reaction :=
  let before :=
    match source with
    | some source => source.tokenBefore delimiter
    | none => .ok none
  match before with
  | .error fault => { fault := some fault }
  | .ok none => { fault := some (.noTokenBefore symbol delimiter.line) }
  | .ok (some token) =>
      if token.line = delimiter.line then
        .ofRemarks [⟨delimiter.line, s!"{symbol} of a rule needs to be on its own line."⟩]
      else
        .ofRemarks (remarkIf (delimiter.column != (indent : Int)) delimiter.line
          (s!"{symbol} of a rule should be indented by {indent} spaces " ++
            s!"but was indented by {delimiter.column}"))

def judgeIfPresent (source : Option Source) (symbol : String) (delimiter : Option Node) :
    Reaction :=
  match delimiter with
  | some node => judge source symbol node
  | none => .silent

def enter (source : Option Source) (rule : Node) : Reaction :=
  (judgeIfPresent source ":" (rule.firstOfKind? .block)).followedBy
    (judgeIfPresent source ";" (rule.firstOfKind? .endOfRule))

end GrammarLint.Check.Delimiters
