import GrammarLint.Grammar.Pattern
import Mathlib.Data.List.Infix
import Mathlib.Data.List.TakeWhile

/-!
# What patterns match

A pattern that matches splits the text in two, and every pattern but the trivia
takes at least one character.  `Trivia` describes what may stand between tokens
without mention of the scanner, and scanned trivia is of that description.
-/

namespace GrammarLint.Grammar

open Text

/-! ## Splitting -/

theorem scanIdentifier?_split {chars taken rest : List Char}
    (h : scanIdentifier? chars = some (taken, rest)) : taken ++ rest = chars := by
  cases chars with
  | nil => simp [scanIdentifier?] at h
  | cons c chars =>
      simp only [scanIdentifier?, Option.ite_none_right_eq_some, Option.some.injEq,
        Prod.mk.injEq] at h
      obtain ⟨-, rfl, rfl⟩ := h
      simp [List.takeWhile_append_dropWhile]

theorem scanQualifiers_split (inName : Bool) (chars : List Char) :
    (scanQualifiers inName chars).1 ++ (scanQualifiers inName chars).2 = chars := by
  fun_induction scanQualifiers inName chars with
  | case1 => rfl
  | case2 inName c chars _ more rest hmore ih =>
      rw [hmore] at ih
      simpa using ih
  | case3 inName d chars _ more rest hmore _ ih =>
      rw [hmore] at ih
      simpa using ih
  | case4 => rfl
  | case5 => rfl

theorem scanQuotedBody?_split {quote : Char} {chars taken rest : List Char}
    (h : scanQuotedBody? quote chars = some (taken, rest)) : taken ++ rest = chars := by
  fun_induction scanQuotedBody? quote chars generalizing taken with
  | case1 => simp at h
  | case2 => simp at h
  | case3 c chars _ ih =>
      obtain ⟨⟨body, after⟩, hbody, heq⟩ := Option.map_eq_some_iff.1 h
      cases heq
      simp [ih hbody]
  | case4 chars =>
      cases h
      rfl
  | case5 => simp at h
  | case6 c chars _ _ _ ih =>
      obtain ⟨⟨body, after⟩, hbody, heq⟩ := Option.map_eq_some_iff.1 h
      cases heq
      simp [ih hbody]

theorem scanCommentBody?_split {chars taken rest : List Char}
    (h : scanCommentBody? chars = some (taken, rest)) : taken ++ rest = chars := by
  fun_induction scanCommentBody? chars generalizing taken with
  | case1 => simp at h
  | case2 chars =>
      cases h
      rfl
  | case3 c chars _ ih =>
      obtain ⟨⟨body, after⟩, hbody, heq⟩ := Option.map_eq_some_iff.1 h
      cases heq
      simp [ih hbody]

theorem scanLineComment?_split {chars taken rest : List Char}
    (h : scanLineComment? chars = some (taken, rest)) : taken ++ rest = chars := by
  fun_cases scanLineComment? chars with
  | case1 chars =>
      cases h
      simp [List.takeWhile_append_dropWhile]
  | case2 => simp [scanLineComment?] at h

theorem scanBlockComment?_split {chars taken rest : List Char}
    (h : scanBlockComment? chars = some (taken, rest)) : taken ++ rest = chars := by
  fun_cases scanBlockComment? chars with
  | case1 chars =>
      obtain ⟨⟨body, after⟩, hbody, heq⟩ := Option.map_eq_some_iff.1 h
      cases heq
      simp [scanCommentBody?_split hbody]
  | case2 => simp [scanBlockComment?] at h

theorem scanTrivia_split (pending : Nat) (chars : List Char) :
    (scanTrivia pending chars).1 ++ (scanTrivia pending chars).2 = chars := by
  fun_induction scanTrivia pending chars with
  | case1 => rfl
  | case2 pending c chars more rest hmore ih =>
      rw [hmore] at ih
      simpa using ih
  | case3 => rfl
  | case4 c chars pending _ more rest hmore ih =>
      rw [hmore] at ih
      simpa using ih

theorem Pattern.scan?_split {pattern : Pattern} {chars taken rest : List Char}
    (h : pattern.scan? chars = some (taken, rest)) : taken ++ rest = chars := by
  cases pattern with
  | word text =>
      simp only [scan?, Option.ite_none_right_eq_some, Bool.and_eq_true,
        List.isPrefixOf_iff_prefix, Option.some.injEq, Prod.mk.injEq] at h
      obtain ⟨⟨hword, -⟩, rfl, rfl⟩ := h
      exact List.prefix_iff_eq_append.1 hword
  | identifier => exact scanIdentifier?_split h
  | qualified =>
      obtain ⟨⟨name, after⟩, hname, heq⟩ := Option.map_eq_some_iff.1 h
      cases heq
      rw [List.append_assoc, scanQualifiers_split, scanIdentifier?_split hname]
  | quoted quote =>
      cases chars with
      | nil => simp [scan?] at h
      | cons c chars =>
          simp only [scan?, Option.ite_none_right_eq_some] at h
          obtain ⟨⟨body, after⟩, hbody, heq⟩ := Option.map_eq_some_iff.1 h.2
          cases heq
          simp [scanQuotedBody?_split hbody]
  | digits =>
      simp only [scan?] at h
      split at h
      · simp at h
      · cases h
        exact List.takeWhile_append_dropWhile
  | lineComment => exact scanLineComment?_split h
  | blockComment => exact scanBlockComment?_split h
  | runWithout excluded =>
      simp only [scan?] at h
      split at h
      · simp at h
      · cases h
        exact List.takeWhile_append_dropWhile
  | oneOf choices =>
      cases chars with
      | nil => simp [scan?] at h
      | cons c chars =>
          simp only [scan?, Option.ite_none_right_eq_some] at h
          cases h.2
          rfl
  | trivia =>
      have hsplit := scanTrivia_split 0 chars
      rw [Option.some.inj h] at hsplit
      exact hsplit

/-! ## Patterns that take at least one character -/

def Pattern.nullable : Pattern → Bool
  | .word text => text.toList.isEmpty
  | .trivia => true
  | _ => false

theorem Pattern.nullable_of_scan?_nil {pattern : Pattern} {chars rest : List Char}
    (h : pattern.scan? chars = some ([], rest)) : pattern.nullable = true := by
  cases pattern with
  | word text =>
      simp only [scan?, Option.ite_none_right_eq_some, Option.some.injEq, Prod.mk.injEq] at h
      simp [nullable, h.2.1]
  | identifier => cases chars <;> simp [scan?, scanIdentifier?] at h
  | qualified => cases chars <;> simp [scan?, scanIdentifier?] at h
  | quoted quote => cases chars <;> simp [scan?] at h
  | digits =>
      simp only [scan?] at h
      split at h <;> simp_all
  | lineComment =>
      simp only [scan?] at h
      fun_cases scanLineComment? chars <;> simp [scanLineComment?] at h
  | blockComment =>
      simp only [scan?] at h
      fun_cases scanBlockComment? chars <;> simp [scanBlockComment?] at h
  | runWithout excluded =>
      simp only [scan?] at h
      split at h <;> simp_all
  | oneOf choices => cases chars <;> simp [scan?] at h
  | trivia => rfl

/-! ## Trivia -/

/-- What may stand between two tokens when `rest` follows: white space, comments
from two slashes up to a line break or the end of the text, and comments from
slash and star up to the first star and slash. -/
inductive Trivia : (gap rest : List Char) → Prop where
  | none (rest : List Char) : Trivia [] rest
  | space {c : Char} {gap rest : List Char} (hspace : isSpace c = true)
      (more : Trivia gap rest) : Trivia (c :: gap) rest
  | line {comment gap rest : List Char} (hline : '\n' ∉ comment)
      (hend : ∀ c ∈ (gap ++ rest).head?, c = '\n') (more : Trivia gap rest) :
      Trivia ('/' :: '/' :: comment ++ gap) rest
  | block {comment gap rest : List Char} (hfirst : ¬ ['*', '/'] <:+: comment ++ ['*'])
      (more : Trivia gap rest) : Trivia ('/' :: '*' :: comment ++ '*' :: '/' :: gap) rest

theorem Trivia.append {first second rest : List Char} (hfirst : Trivia first (second ++ rest))
    (hsecond : Trivia second rest) : Trivia (first ++ second) rest := by
  generalize hafter : second ++ rest = after at hfirst
  induction hfirst with
  | none => exact hsecond
  | space hspace _ ih => exact .space hspace (ih hafter)
  | @line comment gap _ hline hend _ ih =>
      subst hafter
      rw [List.append_assoc]
      exact .line hline (by simpa using hend) (ih rfl)
  | @block comment gap _ hfirst _ ih =>
      subst hafter
      have := Trivia.block hfirst (ih rfl)
      simpa using this

theorem scanLineComment?_shape {chars taken rest : List Char}
    (h : scanLineComment? chars = some (taken, rest)) :
    ∃ comment, taken = '/' :: '/' :: comment ∧ '\n' ∉ comment ∧ ∀ c ∈ rest.head?, c = '\n' := by
  unfold scanLineComment? at h
  split at h
  · rename_i chars
    cases h
    refine ⟨_, rfl, ?_, ?_⟩
    · intro hmem
      simpa using List.mem_takeWhile_imp hmem
    · intro c hc
      have hnot := List.head?_dropWhile_not (· != '\n') chars
      rw [hc] at hnot
      simpa using hnot
  · simp at h

theorem scanCommentBody?_shape {chars taken rest : List Char}
    (h : scanCommentBody? chars = some (taken, rest)) :
    ∃ comment, taken = comment ++ ['*', '/'] ∧ ¬ ['*', '/'] <:+: comment ++ ['*'] := by
  fun_induction scanCommentBody? chars generalizing taken with
  | case1 => simp at h
  | case2 chars =>
      cases h
      exact ⟨[], rfl, by decide⟩
  | case3 c chars hopen ih =>
      obtain ⟨⟨body, after⟩, hbody, heq⟩ := Option.map_eq_some_iff.1 h
      cases heq
      obtain ⟨comment, rfl, hfirst⟩ := ih hbody
      refine ⟨c :: comment, rfl, ?_⟩
      rw [List.cons_append, List.infix_cons_iff]
      rintro (hhere | hlater)
      · rw [List.cons_prefix_cons] at hhere
        have hsplit := scanCommentBody?_split hbody
        cases comment with
        | nil => simp [List.cons_prefix_cons] at hhere
        | cons d comment =>
            rw [List.cons_append, List.cons_prefix_cons] at hhere
            exact hopen (comment ++ ['*', '/'] ++ rest) hhere.1.symm
              (by rw [← hsplit, ← hhere.2.1]; simp)
      · exact hfirst hlater

theorem scanBlockComment?_shape {chars taken rest : List Char}
    (h : scanBlockComment? chars = some (taken, rest)) :
    ∃ comment, taken = '/' :: '*' :: comment ++ ['*', '/'] ∧
      ¬ ['*', '/'] <:+: comment ++ ['*'] := by
  unfold scanBlockComment? at h
  split at h
  · obtain ⟨⟨body, after⟩, hbody, heq⟩ := Option.map_eq_some_iff.1 h
    cases heq
    obtain ⟨comment, rfl, hfirst⟩ := scanCommentBody?_shape hbody
    exact ⟨comment, rfl, hfirst⟩
  · simp at h

theorem Trivia.of_piece {chars gap rest : List Char} {size : Nat}
    (hpiece : triviaPiece chars = size + 1) (hdrop : chars.drop (size + 1) = gap ++ rest)
    (more : Trivia gap rest) : Trivia (chars.take (size + 1) ++ gap) rest := by
  cases chars with
  | nil => simp [triviaPiece] at hpiece
  | cons c chars =>
      simp only [triviaPiece] at hpiece
      split at hpiece
      case isTrue hspace =>
        obtain rfl : size = 0 := by omega
        exact .space hspace more
      case isFalse =>
        split at hpiece
        case h_1 taken after hcomment =>
          obtain ⟨comment, rfl, hline, hend⟩ := scanLineComment?_shape hcomment
          rw [← scanLineComment?_split hcomment, ← hpiece, List.drop_left] at hdrop
          rw [← scanLineComment?_split hcomment, ← hpiece, List.take_left]
          rw [hdrop] at hend
          exact .line hline hend more
        case h_2 =>
          split at hpiece
          case h_1 taken after hcomment =>
            obtain ⟨comment, rfl, hfirst⟩ := scanBlockComment?_shape hcomment
            rw [← scanBlockComment?_split hcomment, ← hpiece, List.take_left]
            simpa using Trivia.block hfirst more
          case h_2 => simp at hpiece

theorem scanTrivia_pending (pending : Nat) (chars : List Char) :
    scanTrivia pending chars =
      (chars.take pending ++ (scanTrivia 0 (chars.drop pending)).1,
        (scanTrivia 0 (chars.drop pending)).2) := by
  induction pending generalizing chars with
  | zero => simp
  | succ pending ih =>
      rw [scanTrivia.eq_def]
      cases chars with
      | nil => rfl
      | cons c chars => simp [ih chars]

theorem scanTrivia_eq_nil {c : Char} {chars : List Char} (h : triviaPiece (c :: chars) = 0) :
    scanTrivia 0 (c :: chars) = ([], c :: chars) := by
  rw [scanTrivia.eq_def]
  simp only [h]

theorem scanTrivia_eq_piece {chars : List Char} {size : Nat}
    (h : triviaPiece chars = size + 1) :
    scanTrivia 0 chars =
      (chars.take (size + 1) ++ (scanTrivia 0 (chars.drop (size + 1))).1,
        (scanTrivia 0 (chars.drop (size + 1))).2) := by
  cases chars with
  | nil => simp [triviaPiece] at h
  | cons c chars =>
      rw [scanTrivia.eq_def]
      simp only [h, scanTrivia_pending size chars]
      rfl

theorem trivia_scanTrivia (chars : List Char) :
    Trivia (scanTrivia 0 chars).1 (scanTrivia 0 chars).2 := by
  induction hlength : chars.length using Nat.strong_induction_on generalizing chars with
  | _ length ih =>
      cases hpiece : triviaPiece chars with
      | zero =>
          cases chars with
          | nil => exact .none []
          | cons c chars =>
              rw [scanTrivia_eq_nil hpiece]
              exact .none _
      | succ size =>
          have hne : chars ≠ [] := by
            rintro rfl
            simp [triviaPiece] at hpiece
          have hshorter : (chars.drop (size + 1)).length < length := by
            have := List.length_pos_of_ne_nil hne
            rw [List.length_drop]
            omega
          rw [scanTrivia_eq_piece hpiece]
          exact .of_piece hpiece (scanTrivia_split 0 _).symm (ih _ hshorter _ rfl)

end GrammarLint.Grammar
