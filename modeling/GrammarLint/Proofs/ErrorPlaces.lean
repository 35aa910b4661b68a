import GrammarLint.Proofs.Composition
import GrammarLint.Proofs.CutTexts
import GrammarLint.Proofs.FailurePlaces
import GrammarLint.Proofs.TokenPlaces

/-!
# Where errors point

An error has the line and the column of one place in the text, and quotes what stands
there.  Where a text begins as a grammar, that place is the end of the head, of a section
or of a rule, and the text before it is a grammar.
-/

namespace GrammarLint

open Grammar Text

namespace Grammar

/-! ## The parts of a file -/

def leading (chars : List Char) : Nat :=
  (scanTrivia 0 chars).1.length

/-- Where a part of a file ends, with the white space and comments after it: the head comes
first, then sections, then rules, each where the one before it ends. -/
inductive PartEnds (chars : List Char) : Rule → Nat → Prop where
  | head {tree : Tree} {next : Cursor}
      (here : matchAt .grammarHead chars (leading chars) = .matched tree next) :
      PartEnds chars .grammarHead next.offset
  | prequel {part : Rule} {offset : Nat} {tree : Tree} {next : Cursor}
      (before : PartEnds chars part offset) (notRule : part ≠ .ruleSpec)
      (here : matchAt .prequel chars offset = .matched tree next) :
      PartEnds chars .prequel next.offset
  | rule {part : Rule} {offset : Nat} {tree : Tree} {next : Cursor}
      (before : PartEnds chars part offset)
      (here : matchAt .ruleSpec chars offset = .matched tree next) :
      PartEnds chars .ruleSpec next.offset

theorem drop_leading (chars : List Char) : chars.drop (leading chars) = afterTrivia chars := by
  have hdrop : ((scanTrivia 0 chars).1 ++ afterTrivia chars).drop (leading chars) =
      afterTrivia chars := List.drop_left
  rwa [afterTrivia, scanTrivia_split] at hdrop

theorem Yields.leads {chars : List Char} {trees : List Tree} {start : Cursor}
    (h : Yields gap (Cursor.start chars) (some (trees, start))) :
    start = ⟨leading chars, chars.drop (leading chars)⟩ := by
  rw [drop_leading]
  cases h with
  | rule hbody => cases hbody with
    | pattern hscan =>
        have hsplit : scanTrivia 0 chars = _ := Option.some.inj hscan
        rw [leading, afterTrivia, hsplit]
        exact congrArg (Cursor.mk · _) (Nat.zero_add _)

theorem Yields.matched_at {rule : Rule} {chars : List Char} {cursor next : Cursor}
    {trees : List Tree} (hlies : Lies chars cursor)
    (h : Yields (.rule rule) cursor (some (trees, next))) :
    ∃ tree, matchAt rule chars cursor.offset = .matched tree next := by
  have hsettles := matchAt_settles rule chars cursor.offset
  rw [← hlies.eq_mk] at hsettles
  cases h with
  | rule hbody => exact ⟨_, hsettles.eq_matched_iff.2 (.rule hbody)⟩

section Parts

variable {chars : List Char} {gaps head sections rules : List Tree}
  {start body first next : Cursor}

theorem Yields.partEnds_sections (h : Yields (.many (.rule .prequel)) body (some (sections, first)))
    (hlies : Lies chars body) {part : Rule} (hpart : PartEnds chars part body.offset)
    (hkind : part ≠ .ruleSpec) : ∃ part, PartEnds chars part first.offset := by
  refine Yields.many_induction rfl rfl (motive := fun cursor _ next => Lies chars cursor →
    ∀ {part}, PartEnds chars part cursor.offset → part ≠ .ruleSpec →
      ∃ part, PartEnds chars part next.offset) ?_ ?_ h hlies hpart hkind
  · exact fun _ _ _ part hpart _ => ⟨part, hpart⟩
  · intro cursor middle next _ _ hone _ ih hlies part hpart hkind
    obtain ⟨tree, hmatched⟩ := hone.matched_at hlies
    exact ih (hlies.yields hone) (hpart.prequel hkind hmatched) nofun

theorem Yields.partEnds_rules (h : Yields (.many (.rule .ruleSpec)) first (some (rules, next)))
    (hlies : Lies chars first) {part : Rule} (hpart : PartEnds chars part first.offset) :
    (∃ part, PartEnds chars part next.offset) ∧ Refuses (.rule .ruleSpec) next.rest := by
  refine Yields.many_induction rfl rfl (motive := fun cursor _ next => Lies chars cursor →
    ∀ {part}, PartEnds chars part cursor.offset →
      (∃ part, PartEnds chars part next.offset) ∧ Refuses (.rule .ruleSpec) next.rest) ?_ ?_ h
        hlies hpart
  · exact fun _ hrefuses _ part hpart => ⟨⟨part, hpart⟩, hrefuses⟩
  · intro cursor middle next _ _ hone _ ih hlies part hpart
    obtain ⟨tree, hmatched⟩ := hone.matched_at hlies
    exact ih (hlies.yields hone) (hpart.rule hmatched)

theorem ReadsFile.head_matched
    (h : ReadsFile chars gaps head sections rules start body first next) :
    ∃ tree, matchAt .grammarHead chars (leading chars) = .matched tree body ∧ Lies chars body := by
  obtain rfl := h.gap.leads
  have hstart : Lies chars ⟨leading chars, chars.drop (leading chars)⟩ := rfl
  obtain ⟨tree, hhead⟩ := h.head.matched_at hstart
  exact ⟨tree, hhead, hstart.yields h.head⟩

theorem ReadsFile.partEnds (h : ReadsFile chars gaps head sections rules start body first next) :
    (∃ part, PartEnds chars part next.offset) ∧ matchAt .ruleSpec chars next.offset = .failed := by
  obtain ⟨tree, hhead, hbody⟩ := h.head_matched
  have hfirst := hbody.yields h.sections
  obtain ⟨part, hpart⟩ := h.sections.partEnds_sections hbody (.head hhead) nofun
  obtain ⟨hends, hrefuses⟩ := h.rules.partEnds_rules hfirst hpart
  have hnext : next.rest = chars.drop next.offset := hfirst.yields h.rules
  rw [hnext] at hrefuses
  exact ⟨hends, (matchAt_settles _ _ _).eq_failed_iff.2 (hrefuses _)⟩

theorem Yields.head_refused (h : Yields (.rule .grammarFile) (Cursor.start chars) none) :
    matchAt .grammarHead chars (leading chars) = .failed := by
  rw [(matchAt_settles _ _ _).eq_failed_iff]
  cases h with
  | noRule hbody => cases hbody with
    | noFirst hgap => exact absurd (hgap.refuses rfl) not_refuses_gap
    | noSecond hgap hfile =>
        obtain rfl := hgap.leads
        cases hfile with
        | noFirst hhead => exact hhead
        | noSecond _ hparts => cases hparts with
          | noFirst hsections => cases hsections
          | noSecond _ hrules => cases hrules

end Parts

/-! ## Gaps -/

theorem afterTrivia_afterTrivia (chars : List Char) :
    afterTrivia (afterTrivia chars) = afterTrivia chars := by
  induction chars using trivia_induction with
  | nil => rfl
  | space c chars hspace ih => rw [afterTrivia_space hspace, ih]
  | comment chars taken rest hcomment ih => rw [afterTrivia_comment hcomment, ih]
  | solid c chars hspace hcomment =>
      rw [afterTrivia_solid hspace hcomment, afterTrivia_solid hspace hcomment]

theorem Lexed.leading_last {enters : Terminal → List Char → Prop} {last chars : List Char}
    {lexemes : List Lexeme} (h : Lexed enters last lexemes (afterTrivia chars)) :
    leading last = 0 := by
  have hsettled : afterTrivia last = last := by
    generalize htext : afterTrivia chars = text at h
    induction h generalizing chars with
    | nil => rw [← htext, afterTrivia_afterTrivia]
    | cons _ _ _ _ ih => exact ih rfl
  have hsplit := scanTrivia_split 0 last
  change (scanTrivia 0 last).1 ++ afterTrivia last = last at hsplit
  rw [hsettled, List.append_left_eq_self] at hsplit
  rw [leading, hsplit, List.length_nil]

end Grammar

/-! ## Messages -/

/-- The place in the text that has the line and the column of the error. -/
structure SourceError.Denotes (error : SourceError) (chars : List Char) (offset : Nat) : Prop where
  inside : offset ≤ chars.length
  line_eq : error.line = (Position.ofOffset chars offset).line
  column_eq : error.column = (Position.ofOffset chars offset).column

/-- The message ends with the next twenty characters in quotes, or those there are, and the
place, its column counted from one. -/
def SourceError.Quotes (error : SourceError) (chars : List Char) (offset : Nat) : Prop :=
  let place := Position.ofOffset chars offset
  let shown := String.ofList ((chars.drop offset).take 20)
  ∃ front, error.message = front ++ s!"'{shown}' (line {place.line}, column {place.column + 1})."

theorem SourceError.Denotes.unique {error : SourceError} {chars : List Char} {offset other : Nat}
    (h : error.Denotes chars offset) (hother : error.Denotes chars other) : other = offset := by
  have hline := h.line_eq.symm.trans hother.line_eq
  have hcolumn := h.column_eq.symm.trans hother.column_eq
  simp only [Position.ofOffset] at hline hcolumn
  have htake := Position.unique (List.take_prefix offset chars) (List.take_prefix other chars)
    (by omega) (by omega)
  have hlength := congrArg List.length htake
  rw [List.length_take_of_le h.inside, List.length_take_of_le hother.inside] at hlength
  exact hlength.symm

section Faults

variable {file : Option String} {chars : List Char} {fault : MatchFault}

theorem Source.errorAt_denotes (h : fault.offset ≤ chars.length) :
    (errorAt file chars fault).Denotes chars fault.offset :=
  ⟨h, rfl, rfl⟩

theorem Source.errorAt_quotes (h : fault ≠ .exhausted) :
    (errorAt file chars fault).Quotes chars fault.offset := by
  have after {text part last : String} (hpart : ∃ front, part = front ++ last) :
      ∃ front, text ++ part = front ++ last := by
    obtain ⟨front, rfl⟩ := hpart
    exact ⟨text ++ front, (String.append_assoc ..).symm⟩
  cases fault with
  | unmatched failure => exact after ⟨_, rfl⟩
  | unfinished rule offset => exact after (after (after ⟨_, rfl⟩))
  | exhausted => exact absurd rfl h

end Faults

/-! ## Rejected texts -/

/-- What begins as a grammar but goes on as none: the text before the place is a grammar, and
the place is the end of its head, of a section or of a rule, with the white space and comments
there; more text follows, which no rule begins. -/
structure Source.BreaksOffAt (chars : List Char) (offset : Nat) : Prop where
  accepted : ∀ file, ∃ source, Source.parse (String.ofList (chars.take offset)) file = .ok source
  more : offset ≠ chars.length
  part : ∃ part, PartEnds chars part offset
  settled : leading (chars.drop offset) = 0
  no_rule : matchAt .ruleSpec chars offset = .failed

theorem Source.breaksOffAt_of_yields {chars : List Char} {tree : Tree} {next : Cursor}
    (h : Yields (.rule .grammarFile) (Cursor.start chars) (some ([tree], next)))
    (hmore : next.rest ≠ []) : BreaksOffAt chars next.offset := by
  have hnext : next.rest = chars.drop next.offset := (Lies.start chars).yields h
  obtain ⟨gaps, head, sections, rules, start, body, first, hreads, -⟩ := readsFile_iff.1 h
  obtain ⟨hpart, hrule⟩ := hreads.partEnds
  refine ⟨fun file => ?_, ?_, hpart, ?_, hrule⟩
  · obtain ⟨cut, haccepts⟩ := hreads.accepts_cut
    rw [← @String.toList_ofList (chars.take next.offset)] at haccepts
    obtain ⟨source, -, hparse⟩ := haccepts.source file
    exact ⟨source, hparse⟩
  · intro hend
    rw [hend, List.drop_length] at hnext
    exact hmore hnext
  · rw [← hnext]
    exact hreads.lexed.leading_last

theorem Source.exists_fault {text : String} {file : Option String} {error : SourceError}
    (h : Source.parse text file = .error error) :
    ∃ fault, Grammar.parse .grammarFile text.toList = .error fault ∧
      error = errorAt file text.toList fault := by
  cases hparse : Grammar.parse .grammarFile text.toList with
  | error fault =>
      simp only [Source.parse, hparse] at h
      cases h
      exact ⟨fault, rfl, rfl⟩
  | ok tree =>
      obtain ⟨source, -, hsource⟩ := ((Grammar.parse_eq_ok_iff _ _ _).1 hparse).source file
      rw [hsource] at h
      cases h

/-- Where an error points.  Its line and its column denote one place in the text, and its
message quotes the text there.  The input is unexpected there exactly if a head stands at the
front of the text, after white space and comments; then the text before the place is a grammar,
which ends at a part of it, and no rule follows. -/
theorem Source.rejection_place {text : String} {file : Option String} {error : SourceError}
    (h : Source.parse text file = .error error) :
    ∃ offset, error.Denotes text.toList offset ∧
      (∀ other, error.Denotes text.toList other → other = offset) ∧
      error.Quotes text.toList offset ∧
      ((∃ detail, error.cause = .unexpected detail) ↔
        ∃ tree next, matchAt .grammarHead text.toList (leading text.toList) = .matched tree next) ∧
      ((∃ detail, error.cause = .unexpected detail) → BreaksOffAt text.toList offset) := by
  obtain ⟨fault, hfault, rfl⟩ := exists_fault h
  have hdenotes := @errorAt_denotes file _ _ (parse_error_offset_le hfault)
  refine ⟨fault.offset, hdenotes, fun _ => hdenotes.unique, ?_⟩
  rcases parse_error_cases hfault with ⟨tree, next, hyields, hmore, rfl⟩ | ⟨hnone, failure, rfl⟩
  · obtain ⟨gaps, head, sections, rules, start, body, first, hreads, -⟩ := readsFile_iff.1 hyields
    obtain ⟨tree, hhead, -⟩ := hreads.head_matched
    exact ⟨errorAt_quotes nofun, ⟨fun _ => ⟨_, _, hhead⟩, fun _ => ⟨_, rfl⟩⟩,
      fun _ => breaksOffAt_of_yields hyields hmore⟩
  · refine ⟨errorAt_quotes nofun, ⟨nofun, fun ⟨tree, next, hhead⟩ => ?_⟩, nofun⟩
    rw [hnone.head_refused] at hhead
    cases hhead

/-- A rule with a block that nothing closes, after a rule with a comment. -/
theorem Source.rejection_place_unclosed :
    let text := "grammar t;\nr : A ; // r\ns : 'b' \x7b\n"
    let error : SourceError := ⟨.unexpected ("Rule 'grammar_file' matched in its entirety, " ++
      "but it didn't consume all the text. The non-matching portion of the text begins with " ++
      "'s : 'b' \x7b\n' (line 3, column 1)."), none, 3, 0, ""⟩
    Source.parse text none = .error error ∧ error.Quotes text.toList 24 ∧
      BreaksOffAt text.toList 24 := by
  intro text error
  have hparse : Source.parse text none = .error error := by decide +kernel
  obtain ⟨offset, -, hunique, hquotes, -, hends⟩ := rejection_place hparse
  obtain rfl : 24 = offset := hunique 24 ⟨by decide, by decide, by decide⟩
  exact ⟨hparse, hquotes, hends ⟨_, rfl⟩⟩

end GrammarLint
