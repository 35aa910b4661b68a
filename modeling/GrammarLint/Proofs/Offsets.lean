import GrammarLint.Proofs.TokenPlaces

/-!
# Offsets as positions

Every offset of a text, its end included, has one position, and positions are ordered as
offsets are.  The position that bisecting the starts of the lines gives to a token is the one
that counting gives to an error there.
-/

namespace GrammarLint

open Grammar Text

namespace Text.Position

def Precedes (place other : Position) : Prop :=
  place.line < other.line ∨ place.line = other.line ∧ place.column < other.column

theorem newline_notMem_drop (before : List Char) :
    '\n' ∉ before.drop (before.length - sinceBreak before) := by
  have htake : before.reverse.take (sinceBreak before) =
      before.reverse.takeWhile (· != '\n') :=
    (List.prefix_iff_eq_take.1 (List.takeWhile_prefix _)).symm
  intro hbreak
  rw [← List.mem_reverse, List.reverse_drop, Nat.sub_sub_self (sinceBreak_le before), htake]
    at hbreak
  have hplain := List.mem_takeWhile_imp hbreak
  simp at hplain

variable {chars : List Char} {offset other : Nat}

theorem precedes_ofOffset_of_lt (h : offset < other) (hother : other ≤ chars.length) :
    (ofOffset chars offset).Precedes (ofOffset chars other) := by
  have hprefix : chars.take offset <+: chars.take other :=
    List.take_prefix_take_left (Nat.le_of_lt h)
  have hplace := of_isPrefix hprefix
  rw [List.length_take_of_le hother, List.length_take_of_le (by omega)] at hplace
  simp only [Precedes, ofOffset]
  omega

theorem Precedes.asymm {place other : Position} (h : place.Precedes other) :
    ¬other.Precedes place := by
  simp only [Precedes] at *
  omega

theorem precedes_ofOffset_iff (h : offset ≤ chars.length) (hother : other ≤ chars.length) :
    (ofOffset chars offset).Precedes (ofOffset chars other) ↔ offset < other := by
  refine ⟨fun hprecedes => ?_, fun hlt => precedes_ofOffset_of_lt hlt hother⟩
  rcases Nat.lt_trichotomy offset other with hlt | rfl | hlt
  · exact hlt
  · exact absurd hprecedes hprecedes.asymm
  · exact absurd hprecedes (precedes_ofOffset_of_lt hlt h).asymm

theorem ofOffset_injective (h : offset ≤ chars.length) (hother : other ≤ chars.length)
    (hsame : ofOffset chars other = ofOffset chars offset) : other = offset := by
  by_contra hne
  rcases Nat.lt_or_gt_of_ne hne with hlt | hlt
  · have hprecedes := precedes_ofOffset_of_lt hlt h
    rw [hsame] at hprecedes
    exact hprecedes.asymm hprecedes
  · have hprecedes := precedes_ofOffset_of_lt hlt hother
    rw [hsame] at hprecedes
    exact hprecedes.asymm hprecedes

end Text.Position

/-- Where an offset of a text is.  The line follows the breaks before the offset, and the
column is the way from the recorded start of the line, on which no break lies.  No two offsets
have one position, a later one has a later position, and a failure of the grammar at the offset
is reported there. -/
theorem Source.offset_located {text : String} {offset : Nat}
    (h : offset ≤ text.toList.length) :
    let chars := text.toList
    let index := LineIndex.ofChars chars
    let place := index.locate offset
    place.line = 1 + (chars.take offset).count '\n' ∧
    (∃ start, index.starts[place.line - 1]? = some start ∧ start + place.column = offset ∧
      '\n' ∉ (chars.drop start).take place.column) ∧
    (∀ other ≤ chars.length, (index.locate other = place ↔ other = offset) ∧
      (place.Precedes (index.locate other) ↔ offset < other)) ∧
    ∀ file fault, fault.offset = offset →
      (errorAt file chars fault).line = place.line ∧
      (errorAt file chars fault).column = place.column ∧
      (Grammar.parse .grammarFile chars = .error fault →
        Source.parse text file = .error (errorAt file chars fault)) := by
  intro chars index place
  have hplace : place = Position.ofOffset chars offset := LineIndex.locate_eq_ofOffset h
  have hsplit : chars.take offset ++ chars.drop offset = chars := List.take_append_drop ..
  have hlength : (chars.take offset).length = offset := List.length_take_of_le h
  have hback := Position.sinceBreak_le (chars.take offset)
  refine ⟨?_, ⟨offset - place.column, ?_, ?_, ?_⟩, fun other hother => ⟨?_, ?_⟩, ?_⟩
  · rw [hplace, Nat.add_comm]
    rfl
  · have hstart := LineIndex.getElem?_starts (chars.take offset) (chars.drop offset)
    rw [hsplit, hlength] at hstart
    rw [hplace]
    exact hstart
  · rw [hlength] at hback
    rw [hplace]
    exact Nat.sub_add_cancel hback
  · have hline := Position.newline_notMem_drop (chars.take offset)
    rw [hlength] at hline hback
    rw [List.drop_take, Nat.sub_sub_self hback] at hline
    rw [hplace]
    exact hline
  · rw [hplace, LineIndex.locate_eq_ofOffset hother]
    exact ⟨Position.ofOffset_injective h hother, fun hsame => by rw [hsame]⟩
  · rw [hplace, LineIndex.locate_eq_ofOffset hother]
    exact Position.precedes_ofOffset_iff h hother
  · rintro file fault rfl
    rw [hplace]
    refine ⟨rfl, rfl, fun hfault => ?_⟩
    rw [Source.parse, hfault]

/-- An empty line before the place where no rule begins. -/
theorem Source.offset_located_sample :
    let text := "grammar t;\n\n  ?"
    let index := LineIndex.ofChars text.toList
    14 ≤ text.toList.length ∧ index.locate 14 = ⟨3, 2⟩ ∧ index.starts[2]? = some 12 ∧
    (∀ other ≤ text.toList.length, (index.locate other = index.locate 14 ↔ other = 14) ∧
      ((index.locate 14).Precedes (index.locate other) ↔ 14 < other)) ∧
    ∃ error, Source.parse text none = .error error ∧ error.line = 3 ∧ error.column = 2 := by
  intro text index
  have hinside : 14 ≤ text.toList.length := by decide
  have hplace : index.locate 14 = ⟨3, 2⟩ := by decide
  have hfails : (Grammar.parse .grammarFile text.toList).map (fun _ => ()) =
      .error (.unfinished .grammarFile 14) := by
    decide +kernel
  obtain ⟨-, -, hothers, herrors⟩ := offset_located hinside
  cases hfault : Grammar.parse .grammarFile text.toList with
  | ok tree =>
      rw [hfault] at hfails
      cases hfails
  | error fault =>
      rw [hfault] at hfails
      cases hfails
      obtain ⟨hline, hcolumn, herror⟩ := herrors none (.unfinished .grammarFile 14) rfl
      rw [hplace] at hline hcolumn
      exact ⟨hinside, hplace, by decide, hothers, _, herror hfault, hline, hcolumn⟩

end GrammarLint
