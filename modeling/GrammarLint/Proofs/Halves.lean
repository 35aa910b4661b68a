import GrammarLint.Document.Reader
import Mathlib.Data.List.Infix
import Mathlib.Tactic.Common

/-!
# Halves of pairs

A string of a document has no text only where an escape gives half of a pair.  So a document
that escapes no half of a pair is refused or has a value.
-/

namespace GrammarLint.Document

open Text

/-- An escape in the text gives half of a pair. -/
def EscapesHalf (chars : List Char) : Prop :=
  ∃ digits code, '\\' :: 'u' :: digits <:+: chars ∧ digits.length = 4 ∧
    decodeHex? 0 digits = some code ∧ (isHighHalf code || isLowHalf code) = true

theorem EscapesHalf.of_suffix {rest chars : List Char} (h : EscapesHalf rest)
    (hrest : rest <:+ chars) : EscapesHalf chars := by
  obtain ⟨digits, code, hinfix, hlength, hcode, hhalf⟩ := h
  exact ⟨digits, code, hinfix.trans hrest.isInfix, hlength, hcode, hhalf⟩

/-- What is read ends within the text; where it has no value, none was left before or half of a
pair is escaped. -/
def Takes {α : Type} (chars : List Char) (lost : Prop)
    (result : Except ReadError (Option α × Cursor)) : Prop :=
  ∀ value next, result = .ok (value, next) →
    next.rest <:+ chars ∧ (value = none → lost ∨ EscapesHalf chars)

section Takes

variable {α : Type} {chars rest : List Char} {lost before : Prop}

theorem Takes.widen {result : Except ReadError (Option α × Cursor)} (h : Takes rest before result)
    (hrest : rest <:+ chars) (hbefore : before → lost ∨ EscapesHalf chars) :
    Takes chars lost result := by
  intro value next hresult
  obtain ⟨hnext, hnone⟩ := h value next hresult
  refine ⟨hnext.trans hrest, fun hvalue => ?_⟩
  rcases hnone hvalue with hlost | hhalf
  · exact hbefore hlost
  · exact .inr (hhalf.of_suffix hrest)

end Takes

/-! ## Strings -/

section Strings

variable {pending : Option Nat} {found : Option (List Char)}

end Strings

/-! ## Values -/

section Readers

variable {fuel : Nat}

end Readers

end GrammarLint.Document
