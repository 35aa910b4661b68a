import GrammarLint.Grammar.Body
import GrammarLint.Grammar.Tree
import GrammarLint.Text.Cursor
import GrammarLint.Text.OffsetMap
import GrammarLint.Text.Position
import GrammarLint.Text.Quoted

/-!
# Matching a text against a rule

`matchRule` evaluates a rule at a cursor.  It remembers the outcome of every
rule at every offset, so that no rule is evaluated twice at one place, and it
keeps the failure that lies furthest into the text, which is what an error
message reports.

The depth of rule calls is bounded by fuel.  A rule never reaches itself again
without consuming a character, so `fuelFor` is enough for every text.
-/

namespace GrammarLint.Grammar

open Text

/-! ## Failures -/

inductive Label where
  | rule (name : Rule)
  | literal (text : String)
  deriving DecidableEq, Repr

namespace Label

def isRule : Label → Bool
  | .rule _ => true
  | .literal _ => false

def text : Label → String
  | .rule name => quoted name.name
  | .literal text => "<Literal " ++ quoted text ++ ">"

end Label

structure Failure where
  label : Label
  offset : Nat
  deriving DecidableEq, Repr

/-- A later failure replaces the one kept if it lies at least as far into the
text, except that a text inside a rule never replaces a rule. -/
def Failure.keep (kept : Option Failure) (label : Label) (offset : Nat) : Option Failure :=
  match kept with
  | none => some ⟨label, offset⟩
  | some old =>
      if old.offset ≤ offset ∧ (label.isRule ∨ ¬ old.label.isRule) then some ⟨label, offset⟩
      else some old

/-! ## State and outcome -/

abbrev Result := Option (Tree × Cursor)

structure Progress where
  known : OffsetMap (List (Rule × Result)) := .empty
  furthest : Option Failure := none

namespace Progress

def lookup? (progress : Progress) (rule : Rule) (offset : Nat) : Option Result :=
  match progress.known.get? offset with
  | some results => results.lookup rule
  | none => none

def remember (progress : Progress) (rule : Rule) (offset : Nat) (result : Result) : Progress :=
  let results := (progress.known.get? offset).getD []
  { progress with known := progress.known.insert offset ((rule, result) :: results) }

def fail (progress : Progress) (label : Label) (offset : Nat) : Progress :=
  { progress with furthest := Failure.keep progress.furthest label offset }

end Progress

inductive Outcome (α : Type) where
  | matched (value : α) (next : Cursor)
  | failed
  | exhausted

abbrev Evaluation (α : Type) := Cursor → Progress → Outcome α × Progress

/-! ## Evaluation -/

/-- Repeats `one` until it fails, consumes nothing, or the text ends; `found`
holds the trees before, latest first. -/
def repeated (one : List Tree → Evaluation (List Tree)) :
    (fuel : Nat) → List Tree → Evaluation (List Tree)
  | 0, _, _, progress => (.exhausted, progress)
  | fuel + 1, found, cursor, progress =>
      if cursor.rest.isEmpty then (.matched found cursor, progress)
      else
        match one found cursor progress with
        | (.matched more next, progress) =>
            if next.offset = cursor.offset then (.matched more next, progress)
            else repeated one fuel more next progress
        | (.failed, progress) => (.matched found cursor, progress)
        | (.exhausted, progress) => (.exhausted, progress)

/-- Evaluates an expression, given how rules are evaluated; `found` holds the
trees before, latest first. -/
def matchExpr (matchRule : Rule → Evaluation Tree) (fuel : Nat) :
    Expr → List Tree → Evaluation (List Tree)
  | .literal text, found, cursor, progress =>
      match cursor.expect? text.toList with
      | some next => (.matched (.text text.toList :: found) next, progress)
      | none => (.failed, progress.fail (.literal text) cursor.offset)
  | .pattern pattern, found, cursor, progress =>
      match pattern.scan? cursor.rest with
      | some (chars, rest) => (.matched (.text chars :: found) (cursor.past chars rest), progress)
      | none => (.failed, progress)
  | .rule rule, found, cursor, progress =>
      match matchRule rule cursor progress with
      | (.matched tree next, progress) => (.matched (tree :: found) next, progress)
      | (.failed, progress) => (.failed, progress)
      | (.exhausted, progress) => (.exhausted, progress)
  | .seq first second, found, cursor, progress =>
      match matchExpr matchRule fuel first found cursor progress with
      | (.matched found next, progress) => matchExpr matchRule fuel second found next progress
      | other => other
  | .choice first second, found, cursor, progress =>
      match matchExpr matchRule fuel first found cursor progress with
      | (.failed, progress) => matchExpr matchRule fuel second found cursor progress
      | other => other
  | .optional body, found, cursor, progress =>
      if cursor.rest.isEmpty then (.matched found cursor, progress)
      else
        match matchExpr matchRule fuel body found cursor progress with
        | (.failed, progress) => (.matched found cursor, progress)
        | other => other
  | .many body, found, cursor, progress =>
      repeated (matchExpr matchRule fuel body) fuel found cursor progress
  | .many1 body, found, cursor, progress =>
      if cursor.rest.isEmpty then (.failed, progress)
      else
        match matchExpr matchRule fuel body found cursor progress with
        | (.matched found next, progress) =>
            if next.offset = cursor.offset then (.matched found next, progress)
            else repeated (matchExpr matchRule fuel body) fuel found next progress
        | other => other

def matchRule : (fuel : Nat) → Rule → Evaluation Tree
  | 0, _, _, progress => (.exhausted, progress)
  | fuel + 1, rule, cursor, progress =>
      match progress.lookup? rule cursor.offset with
      | some (some (tree, next)) => (.matched tree next, progress)
      | some none => (.failed, progress.fail (.rule rule) cursor.offset)
      | none =>
          match matchExpr (matchRule fuel) fuel rule.body [] cursor progress with
          | (.matched found next, progress) =>
              let tree := Tree.node rule cursor.offset found.reverse
              (.matched tree next, progress.remember rule cursor.offset (some (tree, next)))
          | (.failed, progress) =>
              let progress := progress.remember rule cursor.offset none
              (.failed, progress.fail (.rule rule) cursor.offset)
          | (.exhausted, progress) => (.exhausted, progress)

/-- More than the number of rules that can call each other at one offset. -/
def callsPerChar : Nat := 128

def fuelFor (chars : List Char) : Nat :=
  callsPerChar * (chars.length + 1)

/-! ## Whole texts -/

inductive MatchFault where
  | unmatched (failure : Failure)
  | unfinished (rule : Rule) (offset : Nat)
  | exhausted
  deriving DecidableEq, Repr

namespace MatchFault

def offset : MatchFault → Nat
  | .unmatched failure => failure.offset
  | .unfinished _ offset => offset
  | .exhausted => 0

def window : Nat := 20

def message (fault : MatchFault) (chars : List Char) : String :=
  let place := Position.ofOffset chars fault.offset
  let shown := String.ofList ((chars.drop fault.offset).take window)
  let spot := s!"'{shown}' (line {place.line}, column {place.column + 1})."
  match fault with
  | .unmatched failure => s!"Rule {failure.label.text} didn't match at {spot}"
  | .unfinished rule _ =>
      s!"Rule {quoted rule.name} matched in its entirety, but it didn't consume all the text. " ++
      s!"The non-matching portion of the text begins with {spot}"
  | .exhausted => "the text is nested too deeply"

end MatchFault

def parse (start : Rule) (chars : List Char) : Except MatchFault Tree :=
  match matchRule (fuelFor chars) start (Cursor.start chars) {} with
  | (.matched tree next, _) =>
      if next.rest.isEmpty then .ok tree else .error (.unfinished start next.offset)
  | (.failed, progress) =>
      .error (.unmatched (progress.furthest.getD ⟨.rule start, 0⟩))
  | (.exhausted, _) => .error .exhausted

end GrammarLint.Grammar
