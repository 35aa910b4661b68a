import GrammarLint.Proofs.Returns
import GrammarLint.Text.Lines

/-!
# Where lines stand

The line of a text with a given index stands after as many line breaks as the index says,
at the start of the text or just after a break.  So a line of an embedded block is found in
the text around it.
-/

namespace GrammarLint.Text

/-! ## Lines and their places -/

/-- The line with the index `place` stands after `before`: at the start of a line, and up to
the end of the text or the next line break. -/
structure LineAt (chars : List Char) (place : Nat) (before line : List Char) : Prop where
  count_eq : before.count '\n' = place
  start : before = [] ∨ ∃ earlier, before = earlier ++ ['\n']
  one_line : '\n' ∉ line
  split : ∃ rest, chars = before ++ line ++ rest ∧
    (rest = [] ∨ ∃ later, rest = '\n' :: later ∨ rest = '\r' :: '\n' :: later)

namespace LineAt

variable {chars before line : List Char} {place : Nat}

theorem first {rest : List Char} (hline : '\n' ∉ line)
    (hrest : rest = [] ∨ ∃ later, rest = '\n' :: later ∨ rest = '\r' :: '\n' :: later) :
    LineAt (line ++ rest) 0 [] line :=
  ⟨rfl, .inl rfl, hline, rest, rfl, hrest⟩

theorem later (h : LineAt chars place before line) {front : List Char} (hfront : '\n' ∉ front) :
    LineAt (front ++ '\n' :: chars) (place + 1) (front ++ '\n' :: before) line := by
  obtain ⟨hcount, hstart, hline, rest, rfl, hrest⟩ := h
  refine ⟨?_, ?_, hline, rest, by simp, hrest⟩
  · rw [List.count_append, List.count_cons_self, hcount, List.count_eq_zero.2 hfront, Nat.zero_add]
  · rcases hstart with rfl | ⟨earlier, rfl⟩
    · exact .inr ⟨front, rfl⟩
    · exact .inr ⟨front ++ '\n' :: earlier, by simp⟩

end LineAt

theorem linesFrom_plain (current : List Char) {c : Char} {chars : List Char} (hbreak : c ≠ '\n')
    (hreturn : c = '\r' → chars.head? ≠ some '\n') :
    linesFrom current (c :: chars) = linesFrom (c :: current) chars := by
  rw [linesFrom]
  · exact hbreak
  · rintro later rfl rfl
    exact hreturn rfl rfl

theorem linesFrom_append_return (current before after : List Char) :
    linesFrom current (before ++ '\r' :: '\n' :: after) =
      linesFrom current before ++ linesFrom [] after := by
  fun_induction linesFrom current before with
  | case1 => simp [linesFrom]
  | case2 current chars ih => simp [linesFrom, ih]
  | case3 current chars ih => simp [linesFrom, ih]
  | case4 current c chars hbreak hreturn ih =>
      rw [List.cons_append, linesFrom_plain current hbreak, ih]
      rintro rfl hhead
      cases chars with
      | nil => simp at hhead
      | cons first chars => exact hreturn chars rfl (by simpa using hhead)

theorem linesFrom_append_break (current : List Char) {before : List Char} (h : '\r' ∉ before)
    (after : List Char) : linesFrom current (before ++ '\n' :: after) =
      linesFrom current before ++ linesFrom [] after := by
  induction before generalizing current with
  | nil => simp [linesFrom]
  | cons c before ih =>
      simp only [List.mem_cons, not_or] at h
      by_cases hbreak : c = '\n'
      · simp [hbreak, linesFrom, ih _ h.2]
      · rw [List.cons_append, linesFrom_plain current hbreak (fun heq => absurd heq.symm h.1),
          linesFrom_plain current hbreak (fun heq => absurd heq.symm h.1), ih _ h.2]

end GrammarLint.Text
