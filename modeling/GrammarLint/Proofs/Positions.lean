import GrammarLint.Text.Position
import Mathlib.Data.List.GetD
import Mathlib.Data.List.Induction

/-!
# Positions by bisection

Bisecting the starts of the lines finds the position that counting finds.
-/

namespace GrammarLint.Text

def lineStarts (offset : Nat) : List Char → List Nat
  | [] => []
  | c :: chars =>
      if c = '\n' then (offset + 1) :: lineStarts (offset + 1) chars
      else lineStarts (offset + 1) chars

theorem LineIndex.toList_startsFrom (offset : Nat) (found : Array Nat) (chars : List Char) :
    (startsFrom offset found chars).toList = found.toList ++ lineStarts offset chars := by
  induction chars generalizing offset found with
  | nil => simp [startsFrom, lineStarts]
  | cons c chars ih =>
      simp only [startsFrom, ih, lineStarts]
      split <;> simp

theorem lineStarts_append (offset : Nat) (before after : List Char) :
    lineStarts offset (before ++ after) =
      lineStarts offset before ++ lineStarts (offset + before.length) after := by
  induction before generalizing offset with
  | nil => simp [lineStarts]
  | cons c before ih =>
      simp only [List.cons_append, lineStarts, ih, List.length_cons, Nat.add_assoc,
        Nat.add_comm 1]
      split <;> simp

theorem length_lineStarts (offset : Nat) (chars : List Char) :
    (lineStarts offset chars).length = chars.count '\n' := by
  induction chars generalizing offset with
  | nil => rfl
  | cons c chars ih =>
      simp only [lineStarts, List.count_cons, beq_iff_eq]
      split <;> simp [ih]

theorem lt_of_mem_lineStarts {offset start : Nat} {chars : List Char}
    (h : start ∈ lineStarts offset chars) :
    offset < start ∧ start ≤ offset + chars.length := by
  induction chars generalizing offset with
  | nil => simp [lineStarts] at h
  | cons c chars ih =>
      simp only [lineStarts] at h
      have htail : start ∈ lineStarts (offset + 1) chars →
          offset < start ∧ start ≤ offset + (c :: chars).length := by
        intro hmem
        have := ih hmem
        simp only [List.length_cons]
        omega
      split at h
      · rcases List.mem_cons.1 h with rfl | hmem
        · simp only [List.length_cons]
          omega
        · exact htail hmem
      · exact htail h

/-! ## The start of the current line -/

theorem Position.sinceBreak_append_singleton (chars : List Char) (c : Char) :
    sinceBreak (chars ++ [c]) = if c = '\n' then 0 else sinceBreak chars + 1 := by
  simp only [sinceBreak, List.reverse_append, List.reverse_singleton, List.singleton_append,
    List.takeWhile_cons, bne_iff_ne, ne_eq]
  split <;> simp_all

theorem Position.sinceBreak_append {before text : List Char} (h : '\n' ∉ text) :
    sinceBreak (before ++ text) = sinceBreak before + text.length := by
  have hall : ∀ c ∈ text.reverse, (c != '\n') = true := by
    intro c hc
    simp only [bne_iff_ne]
    rintro rfl
    exact h (List.mem_reverse.1 hc)
  simp only [sinceBreak, List.reverse_append, List.takeWhile_append_of_pos hall,
    List.length_append, List.length_reverse]
  omega

theorem Position.sinceBreak_break {before text : List Char} (h : '\n' ∉ text) :
    sinceBreak (before ++ '\n' :: text) = text.length := by
  rw [List.append_cons, sinceBreak_append h]
  simp [sinceBreak]

theorem getLast_lineStarts (before : List Char) :
    (0 :: lineStarts 0 before).getLast (by simp) + Position.sinceBreak before =
      before.length := by
  induction before using List.reverseRecOn with
  | nil => rfl
  | append_singleton before c ih =>
      rw [Position.sinceBreak_append_singleton, List.length_append, List.length_singleton]
      by_cases hbreak : c = '\n'
      · simp [lineStarts_append, lineStarts, hbreak, List.getLast_cons]
      · simp only [lineStarts_append, lineStarts, hbreak, if_false, List.append_nil]
        omega

theorem Position.sinceBreak_le (before : List Char) : sinceBreak before ≤ before.length := by
  have := getLast_lineStarts before
  omega

/-! ## Bisection -/

namespace LineIndex

theorem bisect_eq {starts : Array Nat} {offset count : Nat}
    (hcount : ∀ i < starts.size, starts.getD i 0 ≤ offset ↔ i < count)
    (fuel low high : Nat) (hlow : low ≤ count) (hhigh : count ≤ high)
    (hsize : high ≤ starts.size) (hfuel : high - low ≤ fuel) :
    bisect starts offset fuel low high = count := by
  induction fuel generalizing low high with
  | zero =>
      simp only [bisect]
      omega
  | succ fuel ih =>
      simp only [bisect]
      split
      case isTrue hless =>
        have hmiddle := hcount ((low + high) / 2) (by omega)
        split
        case isTrue hbefore => exact ih low ((low + high) / 2) hlow (by omega) (by omega) (by omega)
        case isFalse hafter =>
            exact ih ((low + high) / 2 + 1) high (by omega) hhigh hsize (by omega)
      case isFalse => omega

theorem toList_starts (before after : List Char) : (ofChars (before ++ after)).starts.toList =
    (0 :: lineStarts 0 before) ++ lineStarts before.length after := by
  simp [ofChars, toList_startsFrom, lineStarts_append]

theorem getElem?_starts (before after : List Char) :
    (ofChars (before ++ after)).starts[before.count '\n']? =
      some (before.length - Position.sinceBreak before) := by
  have hlength : (0 :: lineStarts 0 before).length = before.count '\n' + 1 := by
    simp [length_lineStarts]
  have hlast : (0 :: lineStarts 0 before)[before.count '\n']? =
      some ((0 :: lineStarts 0 before).getLast (by simp)) := by
    rw [List.getLast_eq_getElem, ← List.getElem?_eq_getElem, hlength, Nat.add_sub_cancel]
  have hcolumn := getLast_lineStarts before
  rw [← Array.getElem?_toList, toList_starts, List.getElem?_append_left (by omega), hlast]
  congr 1
  omega

theorem getD_starts_le_iff {before after : List Char} {i : Nat}
    (hi : i < (ofChars (before ++ after)).starts.size) :
    (ofChars (before ++ after)).starts.getD i 0 ≤ before.length ↔ i < before.count '\n' + 1 := by
  have hget : (ofChars (before ++ after)).starts.getD i 0 =
      ((0 :: lineStarts 0 before) ++ lineStarts before.length after).getD i 0 := by
    rw [← toList_starts]
    simp [Array.getD_eq_getD_getElem?, List.getD_eq_getElem?_getD]
  have hlength : (0 :: lineStarts 0 before).length = before.count '\n' + 1 := by
    simp [length_lineStarts]
  rw [← Array.length_toList, toList_starts] at hi
  rw [hget, List.getD_eq_getElem _ _ hi, ← hlength]
  by_cases hside : i < (0 :: lineStarts 0 before).length
  · rw [List.getElem_append_left hside]
    rcases List.mem_cons.1 (List.getElem_mem hside) with hzero | hlater
    · rw [hzero]
      simp only [hside, Nat.zero_le]
    · have := (lt_of_mem_lineStarts hlater).2
      simp only [hside, iff_true]
      omega
  · rw [List.getElem_append_right (by omega)]
    have hrest : i - (0 :: lineStarts 0 before).length <
        (lineStarts before.length after).length := by
      rw [List.length_append] at hi
      omega
    have := (lt_of_mem_lineStarts (List.getElem_mem hrest)).1
    omega

theorem locate_eq (before after : List Char) :
    (ofChars (before ++ after)).locate before.length =
      ⟨before.count '\n' + 1, Position.sinceBreak before⟩ := by
  have hlength : (0 :: lineStarts 0 before).length = before.count '\n' + 1 := by
    simp [length_lineStarts]
  have hsize : before.count '\n' + 1 ≤ (ofChars (before ++ after)).starts.size := by
    rw [← Array.length_toList, toList_starts, List.length_append, hlength]
    omega
  have hline : bisect (ofChars (before ++ after)).starts before.length
      (ofChars (before ++ after)).starts.size 0 (ofChars (before ++ after)).starts.size =
        before.count '\n' + 1 :=
    bisect_eq (fun _ => getD_starts_le_iff) _ 0 _ (Nat.zero_le _) hsize (Nat.le_refl _)
      (Nat.le_refl _)
  have hcolumn := getLast_lineStarts before
  simp only [locate, hline, Nat.add_sub_cancel, Array.getD_eq_getD_getElem?, getElem?_starts,
    Option.getD_some]
  congr 1
  omega

theorem locate_eq_ofOffset {chars : List Char} {offset : Nat} (h : offset ≤ chars.length) :
    (ofChars chars).locate offset = Position.ofOffset chars offset := by
  have hlocate := locate_eq (chars.take offset) (chars.drop offset)
  rwa [List.take_append_drop, List.length_take_of_le h] at hlocate

end LineIndex

end GrammarLint.Text
