import GrammarLint.Proofs.Evaluation

/-!
# First characters

Every expression yields a result at every cursor, and a match that takes a
character starts with one that `starts` admits.  Where the next character is no
start of an expression that must take one, the expression is refused.
-/

namespace GrammarLint.Grammar

open Text

theorem Yields.total (expr : Expr) (cursor : Cursor) : ∃ result, Yields expr cursor result := by
  obtain ⟨offset, rest⟩ := cursor
  have hlies : Lies (List.replicate offset ' ' ++ rest) ⟨offset, rest⟩ := by
    simp [Lies]
  have hevaluates := matchExpr_evaluates
    (matchRule_evaluates _ (callsPerChar * rest.length + expr.height)) expr [] ⟨offset, rest⟩ {}
    hlies (Progress.Sound.empty _) (Nat.le_refl _)
  have hsettles := hevaluates.settles
  revert hsettles
  cases (matchExpr _ _ expr [] ⟨offset, rest⟩ {}).1 with
  | matched all next =>
      rintro ⟨trees, -, hyields⟩
      exact ⟨_, hyields⟩
  | failed => exact fun hyields => ⟨_, hyields⟩
  | exhausted => exact False.elim

def Refuses (expr : Expr) (chars : List Char) : Prop :=
  ∀ offset, Yields expr ⟨offset, chars⟩ none

theorem refuses_iff {expr : Expr} {chars : List Char} :
    Refuses expr chars ↔
      ∀ offset trees next, ¬Yields expr ⟨offset, chars⟩ (some (trees, next)) := by
  constructor
  · intro h offset trees next hyields
    cases (h offset).unique hyields
  · intro h offset
    obtain ⟨result, hresult⟩ := Yields.total expr ⟨offset, chars⟩
    cases result with
    | none => exact hresult
    | some found => exact absurd hresult (h offset found.1 found.2)

namespace Refuses

variable {first second : Expr} {chars : List Char}

theorem rule {rule : Rule} (h : Refuses rule.body chars) : Refuses (.rule rule) chars :=
  fun offset => .noRule (h offset)

theorem seq (h : Refuses first chars) : Refuses (.seq first second) chars :=
  fun offset => .noFirst (h offset)

theorem choice (hfirst : Refuses first chars) (hsecond : Refuses second chars) :
    Refuses (.choice first second) chars :=
  fun offset => .second (hfirst offset) (hsecond offset)

theorem many1 {body : Expr} (h : Refuses body chars) : Refuses (.many1 body) chars := by
  intro offset
  by_cases hend : chars = []
  · exact .many1AtEnd hend
  · exact .many1None hend (h offset)

end Refuses

/-! ## Starts -/

def Pattern.starts : Pattern → Char → Bool
  | .word text, c => text.toList.head? == some c
  | .identifier, c => isIdentStart c
  | .qualified, c => isIdentStart c
  | .quoted quote, c => c == quote
  | .digits, c => c.isDigit
  | .lineComment, c => c == '/'
  | .blockComment, c => c == '/'
  | .runWithout excluded, c => !excluded.contains c
  | .oneOf choices, c => choices.contains c
  | .trivia, c => isSpace c || c == '/'

def Expr.starts (rules : Rule → Char → Bool) : Expr → Char → Bool
  | .literal text, c => text.toList.head? == some c
  | .pattern shape, c => shape.starts c
  | .rule name, c => rules name c
  | .seq first second, c =>
      first.starts rules c || (first.nullable && second.starts rules c)
  | .choice first second, c => first.starts rules c || second.starts rules c
  | .optional body, c => body.starts rules c
  | .many body, c => body.starts rules c
  | .many1 body, c => body.starts rules c

/-- The characters a match of a rule can start with, looking at most `depth` rules
down. -/
def Rule.starts : (depth : Nat) → Rule → Char → Bool
  | 0, _, _ => true
  | depth + 1, rule, c => rule.body.starts (Rule.starts depth) c

theorem scanTrivia_eq_nil_of_solid {c : Char} (chars : List Char) (hspace : isSpace c = false)
    (hslash : c ≠ '/') : scanTrivia 0 (c :: chars) = ([], c :: chars) := by
  have hline : scanLineComment? (c :: chars) = none := by
    unfold scanLineComment?
    split
    · simp_all
    · rfl
  have hblock : scanBlockComment? (c :: chars) = none := by
    unfold scanBlockComment?
    split
    · simp_all
    · rfl
  exact scanTrivia_eq_nil (by simp [triviaPiece, hspace, hline, hblock])

theorem Pattern.starts_of_scan? {pattern : Pattern} {c d : Char} {chars taken rest : List Char}
    (h : pattern.scan? (c :: chars) = some (d :: taken, rest)) : pattern.starts c = true := by
  cases pattern with
  | word text =>
      simp only [scan?] at h
      split at h
      · rename_i hword
        cases hchars : text.toList with
        | nil => simp [hchars] at h
        | cons first others => simp_all [starts]
      · simp at h
  | identifier =>
      simp only [scan?, scanIdentifier?] at h
      split at h
      · assumption
      · simp at h
  | qualified =>
      simp only [scan?, scanIdentifier?] at h
      split at h
      · assumption
      · simp at h
  | quoted quote =>
      simp only [scan?] at h
      split at h
      · simpa [starts] using ‹c = quote›
      · simp at h
  | digits =>
      simp only [scan?] at h
      by_contra hdigit
      simp_all [starts]
  | lineComment =>
      simp only [scan?, scanLineComment?] at h
      split at h
      · simp_all [starts]
      · simp at h
  | blockComment =>
      simp only [scan?, scanBlockComment?] at h
      split at h
      · simp_all [starts]
      · simp at h
  | runWithout excluded =>
      simp only [scan?] at h
      by_contra hexcluded
      simp_all [starts]
  | oneOf choices =>
      simp only [scan?] at h
      split at h
      · assumption
      · simp at h
  | trivia =>
      by_contra hsolid
      simp only [starts, Bool.or_eq_true, beq_iff_eq, not_or, Bool.not_eq_true] at hsolid
      rw [scan?, scanTrivia_eq_nil_of_solid chars hsolid.1 hsolid.2] at h
      simp at h

theorem Yields.starts {expr : Expr} {cursor next : Cursor} {trees : List Tree}
    (h : Yields expr cursor (some (trees, next))) {c : Char} {chars : List Char}
    (hrest : cursor.rest = c :: chars) (htaken : Tree.allChars trees ≠ []) (depth : Nat) :
    expr.starts (Rule.starts depth) c = true := by
  generalize hresult : some (trees, next) = result at h
  induction h generalizing trees next depth with
  | @literal text _ _ hexpect =>
      cases hresult
      have hsplit := (Moves.expect? hexpect).rest_eq
      rw [hrest] at hsplit
      cases hchars : text.toList with
      | nil => simp [hchars] at htaken
      | cons first others => simp_all [Expr.starts]
  | @pattern shape _ taken _ hscan =>
      cases hresult
      cases taken with
      | nil => simp at htaken
      | cons first others =>
          rw [hrest] at hscan
          exact Pattern.starts_of_scan? hscan
  | @rule rule cursor next children hbody ih =>
      cases hresult
      cases depth with
      | zero => rfl
      | succ depth => exact ih hrest (by simpa using htaken) depth rfl
  | @seq first second cursor middle next trees more hfirst hsecond ihFirst ihSecond =>
      cases hresult
      simp only [Expr.starts, Bool.or_eq_true, Bool.and_eq_true]
      by_cases hnone : Tree.allChars trees = []
      · refine .inr ⟨hfirst.nullable hnone, ihSecond ?_ (by simpa [hnone] using htaken) depth rfl⟩
        have hmoves := hfirst.moves.rest_eq
        rwa [hnone, List.nil_append, hrest, eq_comm] at hmoves
      · exact .inl (ihFirst hrest hnone depth rfl)
  | first _ ih =>
      simp only [Expr.starts, Bool.or_eq_true]
      exact .inl (ih hrest htaken depth hresult)
  | second _ _ _ ih =>
      simp only [Expr.starts, Bool.or_eq_true]
      exact .inr (ih hrest htaken depth hresult)
  | optionalAtEnd | optionalNone | manyAtEnd | manyNone =>
      cases hresult
      simp at htaken
  | optionalSome _ _ ih => exact ih hrest htaken depth hresult
  | manyLast _ _ _ ih => exact ih hrest htaken depth hresult
  | manyMore _ hfirst hstuck hmore ihFirst =>
      cases hresult
      refine ihFirst hrest (fun hnone => hstuck ?_) depth rfl
      simpa [hnone] using hfirst.moves.offset_eq
  | many1Some _ _ _ _ ihAll => exact ihAll hrest htaken depth hresult
  | noLiteral | noPattern | noRule | noFirst | noSecond | many1AtEnd | many1None => cases hresult

theorem refuses_of_starts (depth : Nat) {expr : Expr} {c : Char} (chars : List Char)
    (hnullable : expr.nullable = false) (hstarts : expr.starts (Rule.starts depth) c = false) :
    Refuses expr (c :: chars) := by
  refine refuses_iff.2 fun offset trees next hyields => ?_
  have htaken : Tree.allChars trees ≠ [] := by
    intro hnone
    rw [hyields.nullable hnone] at hnullable
    cases hnullable
  rw [hyields.starts rfl htaken depth] at hstarts
  cases hstarts

end GrammarLint.Grammar
