import GrammarLint.Proofs.Assembly
import GrammarLint.Proofs.Embedded
import GrammarLint.Proofs.Lexemes

/-!
# The text after a token

`Terminal.after?` and `afterTrivia` say what is left of a text once a token or trivia
has been read at its front.  They are all there is to know of a token besides its
characters, which are those that are gone.
-/

namespace GrammarLint.Grammar

open Text

def Terminal.after? : Terminal → List Char → Option (List Char)
  | .keyword word, chars => ((Pattern.word word.text).scan? chars).map Prod.snd
  | .mark sign, chars =>
      if sign.text.toList.isPrefixOf chars then some (chars.drop sign.text.toList.length) else none
  | .identifier, chars => (scanIdentifier? chars).map Prod.snd
  | .qualifiedId, chars => (Pattern.qualified.scan? chars).map Prod.snd
  | .stringLiteral, chars => ((Pattern.quoted '\'').scan? chars).map Prod.snd
  | .doubleQuoted, chars => ((Pattern.quoted '"').scan? chars).map Prod.snd
  | .integer, chars => (Pattern.digits.scan? chars).map Prod.snd
  | .actionBlock, chars => Enclosure.braces.afterBlock chars
  | .argBlock, chars => Enclosure.brackets.afterBlock chars

theorem yields_pattern (shape : Pattern) (cursor : Cursor) :
    ∃ result, Yields (.pattern shape) cursor result ∧
      result.map (·.2.rest) = (shape.scan? cursor.rest).map Prod.snd := by
  cases hscan : shape.scan? cursor.rest with
  | none => exact ⟨none, .noPattern hscan, rfl⟩
  | some found => exact ⟨some _, .pattern hscan, rfl⟩

namespace Terminal

theorem yields_after (type : Terminal) (cursor : Cursor) :
    ∃ result, Yields type.body cursor result ∧
      result.map (·.2.rest) = type.after? cursor.rest := by
  cases type with
  | mark sign =>
      simp only [body, after?]
      by_cases hfront : sign.text.toList.isPrefixOf cursor.rest = true
      · exact ⟨some _, .literal (by rw [Cursor.expect?, if_pos hfront]), by rw [if_pos hfront]; rfl⟩
      · exact ⟨none, .noLiteral (by rw [Cursor.expect?, if_neg hfront]), by rw [if_neg hfront]; rfl⟩
  | actionBlock => exact Enclosure.braces.yields_block cursor
  | argBlock => exact Enclosure.brackets.yields_block cursor
  | _ => exact yields_pattern _ cursor

theorem yields_none_iff {type : Terminal} {cursor : Cursor} :
    Yields type.body cursor none ↔ type.after? cursor.rest = none := by
  obtain ⟨result, hyields, hresult⟩ := type.yields_after cursor
  constructor
  · intro h
    rw [← hresult, hyields.unique h]
    rfl
  · intro h
    rw [h, Option.map_eq_none_iff] at hresult
    exact hresult ▸ hyields

theorem after?_of_yields {type : Terminal} {cursor next : Cursor} {trees : List Tree}
    (h : Yields type.body cursor (some (trees, next))) :
    type.after? cursor.rest = some next.rest := by
  obtain ⟨result, hyields, hresult⟩ := type.yields_after cursor
  rw [← hresult, hyields.unique h]
  rfl

theorem exists_yields {type : Terminal} {taken rest : List Char}
    (h : type.after? (taken ++ rest) = some rest) (offset : Nat) :
    ∃ trees, Yields type.body ⟨offset, taken ++ rest⟩
      (some (trees, ⟨offset + taken.length, rest⟩)) ∧ Tree.allChars trees = taken := by
  obtain ⟨result, hyields, hresult⟩ := type.yields_after ⟨offset, taken ++ rest⟩
  rw [h, Option.map_eq_some_iff] at hresult
  obtain ⟨⟨trees, next⟩, rfl, hrest⟩ := hresult
  have hmoves := hyields.moves
  have htaken : Tree.allChars trees = taken := by
    have hsplit : taken ++ rest = Tree.allChars trees ++ next.rest := hmoves.rest_eq
    change next.rest = rest at hrest
    rw [hrest] at hsplit
    exact (List.append_cancel_right hsplit).symm
  have hnext : next = ⟨offset + taken.length, rest⟩ := by
    have hoffset := hmoves.offset_eq
    rw [htaken] at hoffset
    cases next
    simp_all
  exact ⟨trees, hnext ▸ hyields, htaken⟩

theorem refuses_iff_after? {type : Terminal} {chars : List Char} :
    Refuses (.rule (.terminal type)) chars ↔ type.after? chars = none := by
  constructor
  · intro h
    cases h 0 with
    | noRule hbody =>
        rw [Rule.body_terminal] at hbody
        exact yields_none_iff.1 hbody
  · intro h offset
    refine .noRule ?_
    rw [Rule.body_terminal]
    exact yields_none_iff.2 h

end Terminal

/-! ## Characters of tokens -/

theorem Keyword.plain_text (word : Keyword) :
    '\n' ∉ word.text.toList ∧ '\r' ∉ word.text.toList := by
  cases word <;> decide

theorem Mark.plain_text (sign : Mark) : '\n' ∉ sign.text.toList ∧ '\r' ∉ sign.text.toList := by
  cases sign <;> decide

/-! ## Blocks -/

theorem Enclosure.exists_terminal {type : Terminal} (h : type ∈ blockTypes) :
    ∃ enclosure : Enclosure, type = enclosure.terminal := by
  simp only [blockTypes, List.mem_cons, List.not_mem_nil, or_false] at h
  rcases h with rfl | rfl
  · exact ⟨.braces, rfl⟩
  · exact ⟨.brackets, rfl⟩

theorem Enclosure.after?_terminal (enclosure : Enclosure) (chars : List Char) :
    enclosure.terminal.after? chars = enclosure.afterBlock chars := by
  cases enclosure <;> rfl

theorem Enclosure.afterBlock_cons {enclosure : Enclosure} {c : Char} {chars rest : List Char} :
    enclosure.afterBlock (c :: chars) = some rest ↔
      c = enclosure.opening ∧ enclosure.skim 0 chars = some rest := by
  rw [afterBlock, Option.ite_none_right_eq_some]

theorem Enclosure.block_shape {enclosure : Enclosure} {cursor next : Cursor} {trees : List Tree}
    (h : Yields enclosure.terminal.body cursor (some (trees, next))) :
    ∃ inner, Tree.allChars trees = enclosure.opening :: inner ++ [enclosure.closing] := by
  obtain ⟨result, hyields, hresult⟩ := enclosure.yields_block cursor
  rw [hyields.unique h, Option.map_some, eq_comm] at hresult
  have hmoves := h.moves.rest_eq
  cases hrest : cursor.rest with
  | nil => simp [hrest, afterBlock] at hresult
  | cons c chars =>
      rw [hrest, afterBlock_cons] at hresult
      obtain ⟨rfl, hskim⟩ := hresult
      obtain ⟨inner, rfl⟩ := skim_split hskim
      refine ⟨inner, ?_⟩
      rw [hrest, List.append_cons, ← List.cons_append] at hmoves
      exact (List.append_cancel_right hmoves).symm

theorem isName_of_scanIdentifier? {chars taken rest : List Char}
    (h : scanIdentifier? chars = some (taken, rest)) : isName taken = true := by
  cases chars with
  | nil => cases h
  | cons c chars =>
      rw [scanIdentifier?, Option.ite_none_right_eq_some] at h
      cases h.2
      simp only [isName, h.1, Bool.true_and, List.all_eq_true]
      exact fun d hd => List.mem_takeWhile_imp hd

theorem break_notMem_of_isName {name : List Char} (h : isName name = true) : '\n' ∉ name :=
  fun hmem => absurd (all_isIdentPart h _ hmem) (by decide)

theorem break_notMem_scanQualifiers (inName : Bool) (chars : List Char) :
    '\n' ∉ (scanQualifiers inName chars).1 := by
  fun_induction scanQualifiers inName chars with
  | case1 => exact List.not_mem_nil
  | case2 inName c chars hpart more rest hmore ih =>
      rw [hmore] at ih
      rintro (_ | _)
      · simp [show isIdentPart '\n' = false by decide] at hpart
      · exact ih ‹_›
  | case3 inName d chars hstart more rest hmore _ ih =>
      rw [hmore] at ih
      intro hmem
      simp only [List.mem_cons] at hmem
      rcases hmem with hdot | rfl | hmem
      · exact absurd hdot (by decide)
      · exact absurd hstart (by decide)
      · exact ih hmem
  | case4 => exact List.not_mem_nil
  | case5 => exact List.not_mem_nil

theorem break_notMem_scanQuotedBody? {quote : Char} {chars taken rest : List Char}
    (h : scanQuotedBody? quote chars = some (taken, rest)) (hquote : quote ≠ '\n') :
    '\n' ∉ taken := by
  fun_induction scanQuotedBody? quote chars generalizing taken with
  | case1 => cases h
  | case2 => cases h
  | case3 c chars hc ih =>
      obtain ⟨⟨body, after⟩, hbody, heq⟩ := Option.map_eq_some_iff.1 h
      cases heq
      simp [Ne.symm hc, ih hbody]
  | case4 chars =>
      cases h
      simpa using Ne.symm hquote
  | case5 => cases h
  | case6 c chars _ _ hends ih =>
      obtain ⟨⟨body, after⟩, hbody, heq⟩ := Option.map_eq_some_iff.1 h
      cases heq
      rw [not_or] at hends
      simp [Ne.symm hends.1, ih hbody]

theorem Terminal.oneLine {type : Terminal} (htype : type ∉ blockTypes) {cursor next : Cursor}
    {trees : List Tree} (h : Yields type.body cursor (some (trees, next))) :
    '\n' ∉ Tree.allChars trees := by
  have hquoted {quote : Char} (hquote : quote ≠ '\n') {chars taken rest : List Char}
      (hscan : (Pattern.quoted quote).scan? chars = some (taken, rest)) : '\n' ∉ taken := by
    cases chars with
    | nil => cases hscan
    | cons c chars =>
        rw [Pattern.scan?, Option.ite_none_right_eq_some] at hscan
        obtain ⟨rfl, hscan⟩ := hscan
        obtain ⟨⟨body, after⟩, hbody, heq⟩ := Option.map_eq_some_iff.1 hscan
        cases heq
        simp [Ne.symm hquote, break_notMem_scanQuotedBody? hbody hquote]
  cases type with
  | keyword word =>
      cases h with
      | pattern hscan =>
          rw [Pattern.scan?, Option.ite_none_right_eq_some] at hscan
          cases hscan.2
          simpa using word.plain_text.1
  | mark sign =>
      cases h with
      | literal hexpect => simpa using sign.plain_text.1
  | identifier =>
      cases h with
      | pattern hscan =>
          simpa using break_notMem_of_isName (isName_of_scanIdentifier? hscan)
  | qualifiedId =>
      cases h with
      | pattern hscan =>
          obtain ⟨⟨name, after⟩, hname, heq⟩ := Option.map_eq_some_iff.1 hscan
          cases heq
          simp [break_notMem_of_isName (isName_of_scanIdentifier? hname),
            break_notMem_scanQualifiers]
  | stringLiteral =>
      cases h with
      | pattern hscan => simpa using hquoted (by decide) hscan
  | doubleQuoted =>
      cases h with
      | pattern hscan => simpa using hquoted (by decide) hscan
  | integer =>
      cases h with
      | pattern hscan =>
          simp only [Pattern.scan?] at hscan
          split at hscan
          · cases hscan
          · cases hscan
            rw [Tree.allChars_text]
            exact fun hmem => absurd (List.mem_takeWhile_imp hmem) (by decide)
  | actionBlock => exact absurd htype (by decide)
  | argBlock => exact absurd htype (by decide)

/-! ## Trivia -/

def afterTrivia (chars : List Char) : List Char :=
  (scanTrivia 0 chars).2

theorem exists_yields_trivia (cursor : Cursor) :
    ∃ trees next, Yields Rule.trivia.body cursor (some (trees, next)) ∧
      next.rest = afterTrivia cursor.rest :=
  ⟨_, _, .pattern rfl, rfl⟩

theorem afterTrivia_of_yields {cursor next : Cursor} {trees : List Tree}
    (h : Yields Rule.trivia.body cursor (some (trees, next))) :
    next.rest = afterTrivia cursor.rest := by
  obtain ⟨_, _, hyields, hrest⟩ := exists_yields_trivia cursor
  cases h.unique hyields
  exact hrest

@[simp] theorem afterTrivia_nil : afterTrivia [] = [] := rfl

theorem afterTrivia_of_piece {chars : List Char} {size : Nat} (h : triviaPiece chars = size + 1) :
    afterTrivia chars = afterTrivia (chars.drop (size + 1)) := by
  rw [afterTrivia, scanTrivia_eq_piece h]
  rfl

theorem afterTrivia_space {c : Char} (h : isSpace c = true) (chars : List Char) :
    afterTrivia (c :: chars) = afterTrivia chars := by
  have hpiece : triviaPiece (c :: chars) = 0 + 1 := by simp [triviaPiece, h]
  exact afterTrivia_of_piece hpiece

theorem afterTrivia_comment {chars taken rest : List Char}
    (h : Enclosure.braces.comment? chars = some (taken, rest)) :
    afterTrivia chars = afterTrivia rest := by
  obtain ⟨c, more, rfl, hpiece, hsplit⟩ : ∃ c more, taken = c :: more ∧
      triviaPiece chars = taken.length ∧ taken ++ rest = chars := by
    have hslash : isSpace '/' = false := by decide
    rcases Option.or_eq_some_iff.1 h with hline | ⟨hline, hblock⟩
    · obtain ⟨comment, rfl, -, -⟩ := scanLineComment?_shape hline
      have hsplit := scanLineComment?_split hline
      refine ⟨_, _, rfl, ?_, hsplit⟩
      rw [← hsplit] at hline ⊢
      simp only [List.cons_append] at hline ⊢
      simp only [triviaPiece, hslash, Bool.false_eq_true, if_false, hline]
    · obtain ⟨comment, rfl, -⟩ := scanBlockComment?_shape hblock
      have hsplit := scanBlockComment?_split hblock
      refine ⟨_, _, rfl, ?_, hsplit⟩
      rw [← hsplit] at hline hblock ⊢
      simp only [List.cons_append] at hline hblock ⊢
      simp only [triviaPiece, hslash, Bool.false_eq_true, if_false, hline, hblock]
  rw [afterTrivia_of_piece hpiece, ← hsplit]
  exact congrArg afterTrivia List.drop_left

theorem afterTrivia_solid {c : Char} {chars : List Char} (hspace : isSpace c = false)
    (h : Enclosure.braces.comment? (c :: chars) = none) :
    afterTrivia (c :: chars) = c :: chars := by
  obtain ⟨hline, hblock⟩ := Option.or_eq_none_iff.1 h
  rw [afterTrivia, scanTrivia_eq_nil]
  simp [triviaPiece, hspace, hline, hblock]

/-- Trivia goes on after a space or a comment, and ends at anything else. -/
@[elab_as_elim]
theorem trivia_induction {motive : List Char → Prop} (nil : motive [])
    (space : ∀ c chars, isSpace c = true → motive chars → motive (c :: chars))
    (comment : ∀ chars taken rest, Enclosure.braces.comment? chars = some (taken, rest) →
      motive rest → motive chars)
    (solid : ∀ c chars, isSpace c = false → Enclosure.braces.comment? (c :: chars) = none →
      motive (c :: chars))
    (chars : List Char) : motive chars := by
  induction hlength : chars.length using Nat.strong_induction_on generalizing chars with
  | _ length ih =>
      subst hlength
      cases chars with
      | nil => exact nil
      | cons c chars =>
          cases hspace : isSpace c with
          | true => exact space c chars hspace (ih _ (by simp) chars rfl)
          | false =>
              cases hcomment : Enclosure.braces.comment? (c :: chars) with
              | none => exact solid c chars hspace hcomment
              | some found =>
                  exact comment _ _ _ hcomment
                    (ih _ (Enclosure.comment?_length hcomment) found.2 rfl)

end GrammarLint.Grammar
