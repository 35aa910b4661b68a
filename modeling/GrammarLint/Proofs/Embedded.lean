import GrammarLint.Proofs.FirstCharacters

/-!
# Embedded blocks

Where an embedded block ends.  `skim` finds the closing bracket by counting
brackets, and hops over strings and comments on the way; the rules for the inside
of a block end where it ends, and fail where it finds nothing.
-/

namespace GrammarLint.Grammar

open Text

inductive Enclosure where
  | braces
  | brackets
  deriving DecidableEq, Repr

namespace Enclosure

def opening : Enclosure → Char
  | .braces => '\x7b'
  | .brackets => '['

def closing : Enclosure → Char
  | .braces => '\x7d'
  | .brackets => ']'

def terminal : Enclosure → Terminal
  | .braces => .actionBlock
  | .brackets => .argBlock

def chunk : Enclosure → Rule
  | .braces => .actionChunk
  | .brackets => .argChunk

def nested : Enclosure → Rule
  | .braces => .actionNested
  | .brackets => .argNested

def inside (enclosure : Enclosure) : Expr :=
  .seq (.many (.rule enclosure.chunk)) (.literal (String.singleton enclosure.closing))

def comment? : Enclosure → List Char → Option (List Char × List Char)
  | .braces, chars => (scanLineComment? chars).or (scanBlockComment? chars)
  | .brackets, _ => none

/-- The text after the string, the comment or else the character in front. -/
def hop (enclosure : Enclosure) (chars : List Char) : List Char :=
  match (Pattern.quoted '"').scan? chars with
  | some (_, rest) => rest
  | none =>
      match (Pattern.quoted '\'').scan? chars with
      | some (_, rest) => rest
      | none =>
          match enclosure.comment? chars with
          | some (_, rest) => rest
          | none => chars.tail

theorem comment?_length {enclosure : Enclosure} {chars taken rest : List Char}
    (h : enclosure.comment? chars = some (taken, rest)) : rest.length < chars.length := by
  cases enclosure with
  | brackets => simp [comment?] at h
  | braces =>
      rcases Option.or_eq_some_iff.1 h with h | ⟨-, h⟩
      · obtain ⟨comment, rfl, -, -⟩ := scanLineComment?_shape h
        rw [← scanLineComment?_split h]
        simp only [List.length_append, List.length_cons]
        omega
      · obtain ⟨comment, rfl, -⟩ := scanBlockComment?_shape h
        rw [← scanBlockComment?_split h]
        simp only [List.length_append, List.length_cons]
        omega

theorem quoted_length {quote : Char} {chars taken rest : List Char}
    (h : (Pattern.quoted quote).scan? chars = some (taken, rest)) : rest.length < chars.length := by
  rw [← Pattern.scan?_split h, List.length_append]
  have htaken : taken ≠ [] := by
    rintro rfl
    cases Pattern.nullable_of_scan?_nil h
  have := List.length_pos_of_ne_nil htaken
  omega

theorem hop_length (enclosure : Enclosure) (c : Char) (chars : List Char) :
    (enclosure.hop (c :: chars)).length < (c :: chars).length := by
  simp only [hop]
  split
  · exact quoted_length ‹_›
  · split
    · exact quoted_length ‹_›
    · split
      · exact comment?_length ‹_›
      · simp

theorem comment?_split {enclosure : Enclosure} {chars taken rest : List Char}
    (h : enclosure.comment? chars = some (taken, rest)) : taken ++ rest = chars := by
  cases enclosure with
  | brackets => cases h
  | braces =>
      rcases Option.or_eq_some_iff.1 h with h | ⟨-, h⟩
      · exact scanLineComment?_split h
      · exact scanBlockComment?_split h

theorem hop_suffix (enclosure : Enclosure) (chars : List Char) : enclosure.hop chars <:+ chars := by
  simp only [hop]
  split
  · exact ⟨_, Pattern.scan?_split ‹_›⟩
  · split
    · exact ⟨_, Pattern.scan?_split ‹_›⟩
    · split
      · exact ⟨_, comment?_split ‹_›⟩
      · exact List.tail_suffix chars

theorem hop_plain {enclosure : Enclosure} {c : Char} (hdouble : c ≠ '"') (hsingle : c ≠ '\'')
    {chars : List Char} (hcomment : enclosure.comment? (c :: chars) = none) :
    enclosure.hop (c :: chars) = chars := by
  simp [hop, Pattern.scan?, hdouble, hsingle, hcomment]

/-- The text after the bracket that closes the block, where so many blocks inside it
are open. -/
def skim (enclosure : Enclosure) (depth : Nat) : List Char → Option (List Char)
  | [] => none
  | c :: chars =>
      if c = enclosure.closing then
        match depth with
        | 0 => some chars
        | depth + 1 => enclosure.skim depth chars
      else if c = enclosure.opening then enclosure.skim (depth + 1) chars
      else enclosure.skim depth (enclosure.hop (c :: chars))
termination_by chars => chars.length
decreasing_by
  · simp
  · simp
  · exact enclosure.hop_length c chars

/-- Induction along the skimming of a text: one case for each kind of character it can meet. -/
@[elab_as_elim]
theorem skim_induction (enclosure : Enclosure) {motive : Nat → List Char → Prop}
    (ends : ∀ depth, motive depth [])
    (leaves : ∀ chars, motive 0 (enclosure.closing :: chars))
    (closes : ∀ depth chars, motive depth chars → motive (depth + 1) (enclosure.closing :: chars))
    (opens : ∀ depth chars, motive (depth + 1) chars → motive depth (enclosure.opening :: chars))
    (hops : ∀ depth c chars, c ≠ enclosure.closing → c ≠ enclosure.opening →
      motive depth (enclosure.hop (c :: chars)) → motive depth (c :: chars))
    (depth : Nat) (chars : List Char) : motive depth chars := by
  induction hlength : chars.length using Nat.strong_induction_on generalizing depth chars with
  | _ length ih =>
      subst hlength
      cases chars with
      | nil => exact ends depth
      | cons c chars =>
          by_cases hclosing : c = enclosure.closing
          · subst hclosing
            cases depth with
            | zero => exact leaves chars
            | succ depth => exact closes depth chars (ih _ (by simp) depth chars rfl)
          · by_cases hopening : c = enclosure.opening
            · subst hopening
              exact opens depth chars (ih _ (by simp) (depth + 1) chars rfl)
            · exact hops depth c chars hclosing hopening
                (ih _ (enclosure.hop_length c chars) depth _ rfl)

section Skim

variable (enclosure : Enclosure) (depth : Nat)

@[simp] theorem skim_nil : enclosure.skim depth [] = none := by
  rw [skim]

theorem opening_ne_closing : enclosure.opening ≠ enclosure.closing := by
  cases enclosure <;> decide

@[simp] theorem skim_closing_zero (chars : List Char) :
    enclosure.skim 0 (enclosure.closing :: chars) = some chars := by
  rw [skim.eq_def]
  simp

@[simp] theorem skim_closing_succ (chars : List Char) :
    enclosure.skim (depth + 1) (enclosure.closing :: chars) = enclosure.skim depth chars := by
  rw [skim.eq_def]
  simp

@[simp] theorem skim_opening (chars : List Char) :
    enclosure.skim depth (enclosure.opening :: chars) = enclosure.skim (depth + 1) chars := by
  rw [skim.eq_def]
  simp [enclosure.opening_ne_closing]

variable {enclosure}

theorem skim_hop {c : Char} (hclosing : c ≠ enclosure.closing) (hopening : c ≠ enclosure.opening)
    (chars : List Char) :
    enclosure.skim depth (c :: chars) = enclosure.skim depth (enclosure.hop (c :: chars)) := by
  rw [skim.eq_def]
  simp [hclosing, hopening]

theorem skim_add (count : Nat) (chars : List Char) :
    enclosure.skim (depth + 1 + count) chars =
      (enclosure.skim count chars).bind (enclosure.skim depth) := by
  induction count, chars using skim_induction enclosure with
  | ends count => simp
  | leaves chars => simp
  | closes count chars ih => simpa only [← Nat.add_assoc, skim_closing_succ] using ih
  | opens count chars ih =>
      simp only [skim_opening]
      exact ih
  | hops count c chars hclosing hopening ih =>
      rw [skim_hop _ hclosing hopening, skim_hop _ hclosing hopening]
      exact ih

theorem skim_succ (chars : List Char) :
    enclosure.skim (depth + 1) chars = (enclosure.skim 0 chars).bind (enclosure.skim depth) :=
  skim_add depth 0 chars

end Skim

theorem skim_split {enclosure : Enclosure} {depth : Nat} {chars rest : List Char}
    (h : enclosure.skim depth chars = some rest) :
    ∃ inner, chars = inner ++ enclosure.closing :: rest := by
  suffices hsuffix : enclosure.closing :: rest <:+ chars from
    hsuffix.elim fun inner hinner => ⟨inner, hinner.symm⟩
  induction depth, chars using skim_induction enclosure with
  | ends depth => simp at h
  | leaves chars =>
      rw [skim_closing_zero] at h
      cases h
      exact List.suffix_refl _
  | closes depth chars ih =>
      rw [skim_closing_succ] at h
      exact (ih h).trans (List.suffix_cons _ _)
  | opens depth chars ih =>
      rw [skim_opening] at h
      exact (ih h).trans (List.suffix_cons _ _)
  | hops depth c chars hclosing hopening ih =>
      rw [skim_hop _ hclosing hopening] at h
      exact (ih h).trans (enclosure.hop_suffix _)

def special : Enclosure → List Char
  | .braces => ['\x7b', '\x7d', '"', '\'', '/']
  | .brackets => ['[', ']', '"', '\'']

theorem comment?_eq_none {c : Char} (enclosure : Enclosure) (chars : List Char)
    (h : enclosure = .brackets ∨ c ≠ '/') : enclosure.comment? (c :: chars) = none := by
  cases enclosure with
  | brackets => rfl
  | braces =>
      have hslash : c ≠ '/' := h.resolve_left (by simp)
      simp [comment?, scanLineComment?, scanBlockComment?, hslash]

theorem hop_ordinary {enclosure : Enclosure} {c : Char} (h : c ∉ enclosure.special)
    (chars : List Char) : enclosure.hop (c :: chars) = chars := by
  cases enclosure with
  | braces =>
      simp only [special, List.mem_cons, List.not_mem_nil, or_false, not_or] at h
      exact hop_plain h.2.2.1 h.2.2.2.1 (comment?_eq_none _ _ (.inr h.2.2.2.2))
  | brackets =>
      simp only [special, List.mem_cons, List.not_mem_nil, or_false, not_or] at h
      exact hop_plain h.2.2.1 h.2.2.2 rfl

theorem skim_ordinary {enclosure : Enclosure} {c : Char} (h : c ∉ enclosure.special)
    (depth : Nat) (chars : List Char) :
    enclosure.skim depth (c :: chars) = enclosure.skim depth chars := by
  have hclosing : c ≠ enclosure.closing := by
    rintro rfl
    cases enclosure <;> exact h (by decide)
  have hopening : c ≠ enclosure.opening := by
    rintro rfl
    cases enclosure <;> exact h (by decide)
  rw [skim_hop _ hclosing hopening, hop_ordinary h]

theorem skim_run {enclosure : Enclosure} {run : List Char} (h : ∀ c ∈ run, c ∉ enclosure.special)
    (depth : Nat) (rest : List Char) :
    enclosure.skim depth (run ++ rest) = enclosure.skim depth rest := by
  induction run with
  | nil => rfl
  | cons c run ih =>
      rw [List.cons_append, skim_ordinary (h c List.mem_cons_self)]
      exact ih fun d hd => h d (List.mem_cons_of_mem c hd)

/-! ## Chunks -/

/-- A chunk at a cursor leads to a place from which a block is skimmed alike. -/
structure Passes (enclosure : Enclosure) (cursor : Cursor) (trees : List Tree) (next : Cursor) :
    Prop where
  yields : Yields (.rule enclosure.chunk) cursor (some (trees, next))
  skims : ∀ depth, enclosure.skim depth cursor.rest = enclosure.skim depth next.rest

theorem refuses_literal {text : String} {c d : Char} {others : List Char}
    (htext : text.toList = d :: others) (hne : c ≠ d) (chars : List Char) :
    Refuses (.literal text) (c :: chars) := by
  intro offset
  refine .noLiteral ?_
  simp [Cursor.expect?, htext, List.isPrefixOf, hne.symm]

theorem refuses_pattern {shape : Pattern} {chars : List Char} (h : shape.scan? chars = none) :
    Refuses (.pattern shape) chars :=
  fun _ => .noPattern h

theorem yields_string {quote : Char} {chars taken rest : List Char}
    (hquote : quote = '"' ∨ quote = '\'')
    (h : (Pattern.quoted quote).scan? chars = some (taken, rest)) (offset : Nat) :
    ∃ trees, Yields (.rule .actionString) ⟨offset, chars⟩
      (some (trees, ⟨offset + taken.length, rest⟩)) := by
  rcases hquote with rfl | rfl
  · exact ⟨_, .rule (.first (.pattern h))⟩
  · refine ⟨_, .rule (.second (.noPattern ?_) (.pattern h))⟩
    cases chars with
    | nil => rfl
    | cons c chars =>
        have hstart : (c == '\'') = true := by
          cases taken with
          | nil => cases Pattern.nullable_of_scan?_nil h
          | cons d taken => exact Pattern.starts_of_scan? h
        rw [beq_iff_eq] at hstart
        simp [Pattern.scan?, hstart]

theorem refuses_string {chars : List Char} (hdouble : (Pattern.quoted '"').scan? chars = none)
    (hsingle : (Pattern.quoted '\'').scan? chars = none) : Refuses (.rule .actionString) chars :=
  Refuses.rule
    ((refuses_pattern hdouble).choice (refuses_pattern hsingle))

theorem scan?_runWithout {excluded : List Char} {c : Char} (h : c ∉ excluded) (chars : List Char) :
    (Pattern.runWithout excluded).scan? (c :: chars) =
      some ((c :: chars).takeWhile (!excluded.contains ·),
        (c :: chars).dropWhile (!excluded.contains ·)) := by
  simp [Pattern.scan?, h]

theorem skim_dropWhile (enclosure : Enclosure) (depth : Nat) (chars : List Char) :
    enclosure.skim depth chars =
      enclosure.skim depth (chars.dropWhile (!enclosure.special.contains ·)) := by
  conv_lhs =>
    rw [← List.takeWhile_append_dropWhile (p := (!enclosure.special.contains ·)) (l := chars)]
  refine skim_run (fun c hc => ?_) _ _
  simpa using List.mem_takeWhile_imp hc

theorem terminal_body (enclosure : Enclosure) : enclosure.terminal.body =
    .seq (.literal (String.singleton enclosure.opening)) enclosure.inside := by
  cases enclosure <;> rfl

theorem nested_body (enclosure : Enclosure) : enclosure.nested.body =
    .seq (.literal (String.singleton enclosure.opening)) enclosure.inside := by
  cases enclosure <;> rfl

def plain : Enclosure → Expr
  | .braces =>
      .choice (.rule .actionComment) (.choice (.rule .actionText) (.rule .actionQuote))
  | .brackets => .choice (.rule .argText) (.rule .actionQuote)

theorem chunk_body (enclosure : Enclosure) : enclosure.chunk.body =
    .choice (.rule enclosure.nested) (.choice (.rule .actionString) enclosure.plain) := by
  cases enclosure <;> rfl

theorem yields_quote {c : Char} (h : c = '"' ∨ c = '\'') (offset : Nat) (chars : List Char) :
    Yields (.rule .actionQuote) ⟨offset, c :: chars⟩
      (some ([.node .actionQuote offset [.text [c]]], ⟨offset + 1, chars⟩)) := by
  refine .rule (.pattern ?_)
  rcases h with rfl | rfl <;> rfl

theorem refuses_runWithout {excluded : List Char} {c : Char} (h : c ∈ excluded)
    (chars : List Char) : Refuses (.pattern (.runWithout excluded)) (c :: chars) :=
  refuses_pattern (by simp [Pattern.scan?, h])

theorem yields_comment {chars taken rest : List Char}
    (h : Enclosure.braces.comment? chars = some (taken, rest)) (offset : Nat) :
    ∃ trees, Yields (.rule .actionComment) ⟨offset, chars⟩
      (some (trees, ⟨offset + taken.length, rest⟩)) := by
  rcases Option.or_eq_some_iff.1 h with hline | ⟨hline, hblock⟩
  · exact ⟨_, .rule (.first (.pattern hline))⟩
  · exact ⟨_, .rule (.second (.noPattern hline) (.pattern hblock))⟩

theorem refuses_comment {chars : List Char} (h : Enclosure.braces.comment? chars = none) :
    Refuses (.rule .actionComment) chars := by
  obtain ⟨hline, hblock⟩ := Option.or_eq_none_iff.1 h
  exact Refuses.rule
    (.choice (refuses_pattern hline) (refuses_pattern hblock))

theorem yields_text (enclosure : Enclosure) {c : Char} (hclosing : c ≠ enclosure.closing)
    (hopening : c ≠ enclosure.opening) {chars : List Char}
    (hcomment : enclosure.comment? (c :: chars) = none)
    (hskims : ∀ depth, enclosure.skim depth (c :: chars) = enclosure.skim depth chars)
    (offset : Nat) :
    ∃ trees next, Yields enclosure.plain ⟨offset, c :: chars⟩ (some (trees, next)) ∧
      ∀ depth, enclosure.skim depth (c :: chars) = enclosure.skim depth next.rest := by
  by_cases hquote : c = '"' ∨ c = '\''
  · refine ⟨[.node .actionQuote offset [.text [c]]], ⟨offset + 1, chars⟩, ?_, hskims⟩
    have hspecial : c ∈ enclosure.special := by
      rcases hquote with rfl | rfl <;> cases enclosure <;> decide
    have hrun := refuses_runWithout hspecial chars
    cases enclosure with
    | braces =>
        have hslash : c ≠ '/' := by rcases hquote with rfl | rfl <;> decide
        have htext : Refuses (.rule .actionText) (c :: chars) :=
          Refuses.rule (hrun.choice (refuses_literal rfl hslash chars))
        exact .second (refuses_comment hcomment _) (.second (htext _) (yields_quote hquote _ _))
    | brackets =>
        have htext : Refuses (.rule .argText) (c :: chars) := Refuses.rule hrun
        exact .second (htext _) (yields_quote hquote _ _)
  · rw [not_or] at hquote
    cases enclosure with
    | braces =>
        by_cases hslash : c = '/'
        · subst hslash
          have hrun := refuses_runWithout (by decide : '/' ∈ Enclosure.braces.special) chars
          exact ⟨_, _, .second (refuses_comment hcomment _)
            (.first (.rule (.second (hrun _) (.literal rfl)))), hskims⟩
        · have hordinary : c ∉ Enclosure.braces.special := by
            simp only [special, List.mem_cons, List.not_mem_nil, or_false, not_or]
            exact ⟨hopening, hclosing, hquote.1, hquote.2, hslash⟩
          exact ⟨_, _, .second (refuses_comment hcomment _)
            (.first (.rule (.first (.pattern (scan?_runWithout hordinary chars))))),
            fun depth => skim_dropWhile _ depth _⟩
    | brackets =>
        have hordinary : c ∉ Enclosure.brackets.special := by
          simp only [special, List.mem_cons, List.not_mem_nil, or_false, not_or]
          exact ⟨hopening, hclosing, hquote.1, hquote.2⟩
        exact ⟨_, _, .first (.rule (.pattern (scan?_runWithout hordinary chars))),
          fun depth => skim_dropWhile _ depth _⟩

theorem refuses_nested (enclosure : Enclosure) {c : Char} (hopening : c ≠ enclosure.opening)
    (chars : List Char) : Refuses (.rule enclosure.nested) (c :: chars) := by
  refine Refuses.rule ?_
  rw [nested_body]
  exact (refuses_literal (String.toList_singleton _) hopening chars).seq

theorem passes_piece (enclosure : Enclosure) {c : Char} (hclosing : c ≠ enclosure.closing)
    (hopening : c ≠ enclosure.opening) (offset : Nat) (chars : List Char) :
    ∃ trees next, enclosure.Passes ⟨offset, c :: chars⟩ trees next := by
  have hskims (depth : Nat) := skim_hop depth hclosing hopening chars
  have hnested := refuses_nested enclosure hopening chars
  have hchunk {trees : List Tree} {next : Cursor}
      (h : Yields (.choice (.rule .actionString) enclosure.plain) ⟨offset, c :: chars⟩
        (some (trees, next))) :
      Yields enclosure.chunk.body ⟨offset, c :: chars⟩ (some (trees, next)) := by
    rw [chunk_body]
    exact .second (hnested offset) h
  cases hdouble : (Pattern.quoted '"').scan? (c :: chars) with
  | some found =>
      obtain ⟨trees, hstring⟩ := yields_string (.inl rfl) hdouble offset
      exact ⟨_, _, .rule (hchunk (.first hstring)), by simpa only [hop, hdouble] using hskims⟩
  | none =>
      cases hsingle : (Pattern.quoted '\'').scan? (c :: chars) with
      | some found =>
          obtain ⟨trees, hstring⟩ := yields_string (.inr rfl) hsingle offset
          exact ⟨_, _, .rule (hchunk (.first hstring)),
            by simpa only [hop, hdouble, hsingle] using hskims⟩
      | none =>
          simp only [hop, hdouble, hsingle] at hskims
          obtain ⟨trees, next, hplain, hpass⟩ : ∃ trees next,
              Yields enclosure.plain ⟨offset, c :: chars⟩ (some (trees, next)) ∧
                ∀ depth, enclosure.skim depth (c :: chars) = enclosure.skim depth next.rest := by
            cases hcomment : enclosure.comment? (c :: chars) with
            | none =>
                rw [hcomment] at hskims
                exact yields_text enclosure hclosing hopening hcomment hskims offset
            | some found =>
                rw [hcomment] at hskims
                cases enclosure with
                | brackets => cases hcomment
                | braces =>
                    obtain ⟨trees, hcomment⟩ := yields_comment hcomment offset
                    exact ⟨_, _, .first hcomment, hskims⟩
          have hstring := refuses_string hdouble hsingle offset
          exact ⟨_, _, .rule (hchunk (.second hstring hplain)), hpass⟩

/-! ## The inside of a block -/

/-- Chunks, as many as there are, lead from the cursor to a place from which a block is
skimmed alike, and which is its end if it has one. -/
structure Crosses (enclosure : Enclosure) (cursor : Cursor) (trees : List Tree) (next : Cursor) :
    Prop where
  yields : Yields (.many (.rule enclosure.chunk)) cursor (some (trees, next))
  skims : ∀ depth, enclosure.skim depth cursor.rest = enclosure.skim depth next.rest
  ends : (∃ rest, next.rest = enclosure.closing :: rest) ∨
    enclosure.skim 0 next.rest = none ∧
      Refuses (.literal (String.singleton enclosure.closing)) next.rest

theorem Crosses.inside {enclosure : Enclosure} {cursor next : Cursor} {trees : List Tree}
    (h : enclosure.Crosses cursor trees next) :
    ∃ result, Yields enclosure.inside cursor result ∧
      result.map (·.2.rest) = enclosure.skim 0 cursor.rest := by
  rcases h.ends with ⟨rest, hrest⟩ | ⟨hnone, hrefuses⟩
  · refine ⟨some (_, next.past [enclosure.closing] rest), .seq h.yields (.literal ?_), ?_⟩
    · simp [Cursor.expect?, hrest, List.isPrefixOf]
    · simp [h.skims, hrest, Cursor.past]
  · exact ⟨none, .noSecond h.yields (hrefuses next.offset), by simp [h.skims, hnone]⟩

theorem refuses_chunk (enclosure : Enclosure) {c : Char} {chars : List Char}
    (hbracket : c = enclosure.opening ∨ c = enclosure.closing)
    (hnested : Refuses (.rule enclosure.nested) (c :: chars)) :
    Refuses (.rule enclosure.chunk) (c :: chars) := by
  refine Refuses.rule ?_
  rw [chunk_body]
  refine hnested.choice ?_
  rcases hbracket with rfl | rfl <;> cases enclosure <;>
    exact refuses_of_starts 2 chars (by decide) (by decide)

theorem Passes.crosses {enclosure : Enclosure} {cursor middle : Cursor} {trees : List Tree}
    (h : enclosure.Passes cursor trees middle)
    (hmore : middle.rest.length < cursor.rest.length →
      ∃ more next, enclosure.Crosses middle more next) :
    ∃ trees next, enclosure.Crosses cursor trees next := by
  have hmoves := h.yields.moves
  have hlength := hmoves.length_eq
  have hoffset := hmoves.offset_eq
  have htaken : 0 < (Tree.allChars trees).length := by
    rw [List.length_pos_iff]
    intro hnone
    have hnullable := h.yields.nullable hnone
    cases enclosure <;> cases hnullable
  obtain ⟨more, next, hcrosses⟩ := hmore (by omega)
  refine ⟨trees ++ more, next, .manyMore ?_ h.yields (by omega) hcrosses.yields,
    fun depth => (h.skims depth).trans (hcrosses.skims depth), hcrosses.ends⟩
  intro hnil
  rw [hnil, List.length_nil] at hlength
  omega

theorem yields_singleton (c : Char) (offset : Nat) (chars : List Char) :
    Yields (.literal (String.singleton c)) ⟨offset, c :: chars⟩
      (some ([.text (String.singleton c).toList], ⟨offset + 1, chars⟩)) :=
  .literal (by simp [Cursor.expect?, List.isPrefixOf, Cursor.past])

theorem crosses_opening {enclosure : Enclosure} {chars : List Char}
    (hshorter : ∀ rest, rest.length ≤ chars.length → ∀ offset,
      ∃ trees next, enclosure.Crosses ⟨offset, rest⟩ trees next) (offset : Nat) :
    ∃ trees next, enclosure.Crosses ⟨offset, enclosure.opening :: chars⟩ trees next := by
  have hinside (place : Nat) : ∃ result, Yields enclosure.nested.body
      ⟨place, enclosure.opening :: chars⟩ result ∧
        result.map (·.2.rest) = enclosure.skim 0 chars := by
    obtain ⟨trees, next, hcrosses⟩ := hshorter chars (Nat.le_refl _) (place + 1)
    obtain ⟨result, hyields, hresult⟩ := hcrosses.inside
    have hopen := yields_singleton enclosure.opening place chars
    rw [nested_body]
    cases result with
    | none => exact ⟨none, .noSecond hopen hyields, hresult⟩
    | some found => exact ⟨some _, .seq hopen hyields, hresult⟩
  -- If the inner block is closed it is one chunk; if it is not, the chunks end in front of it,
  -- and no bracket closes the outer block either.
  cases hskim : enclosure.skim 0 chars with
  | none =>
      have hnested : Refuses (.rule enclosure.nested) (enclosure.opening :: chars) := by
        intro place
        obtain ⟨result, hyields, hresult⟩ := hinside place
        rw [hskim, Option.map_eq_none_iff] at hresult
        exact .noRule (hresult ▸ hyields)
      have hchunk := refuses_chunk enclosure (.inl rfl) hnested
      refine ⟨[], _, .manyNone (by simp) (hchunk offset), fun _ => rfl, .inr ⟨?_, ?_⟩⟩
      · rw [skim_opening, skim_succ, hskim]
        rfl
      · exact refuses_literal (String.toList_singleton _) enclosure.opening_ne_closing chars
  | some rest =>
      obtain ⟨result, hyields, hresult⟩ := hinside offset
      rw [hskim, Option.map_eq_some_iff] at hresult
      obtain ⟨⟨inner, middle⟩, rfl, rfl⟩ := hresult
      have hpasses : enclosure.Passes ⟨offset, enclosure.opening :: chars⟩
          [.node enclosure.chunk offset [.node enclosure.nested offset inner]] middle := by
        refine ⟨.rule ?_, fun depth => ?_⟩
        · rw [chunk_body]
          exact .first (.rule hyields)
        · rw [skim_opening, skim_succ, hskim]
          rfl
      exact hpasses.crosses fun hless => hshorter middle.rest
        (by simpa using Nat.lt_succ_iff.1 hless) middle.offset

theorem exists_crosses (enclosure : Enclosure) (cursor : Cursor) :
    ∃ trees next, enclosure.Crosses cursor trees next := by
  obtain ⟨offset, chars⟩ := cursor
  induction hlength : chars.length using Nat.strong_induction_on generalizing offset chars with
  | _ length ih =>
      subst hlength
      cases chars with
      | nil =>
          refine ⟨[], _, .manyAtEnd rfl, fun _ => rfl, .inr ⟨by simp, fun offset => ?_⟩⟩
          exact .noLiteral (by simp [Cursor.expect?])
      | cons c chars =>
          by_cases hclosing : c = enclosure.closing
          · have hchunk := refuses_chunk enclosure (.inr hclosing)
              (refuses_nested enclosure (hclosing ▸ enclosure.opening_ne_closing.symm) chars)
            exact ⟨[], _, .manyNone (by simp) (hchunk offset), fun _ => rfl,
              .inl ⟨chars, by simp [hclosing]⟩⟩
          · by_cases hopening : c = enclosure.opening
            · subst hopening
              exact crosses_opening (fun rest hless place =>
                ih _ (by simpa using Nat.lt_succ_of_le hless) place rest rfl) offset
            · obtain ⟨trees, next, hpasses⟩ := passes_piece enclosure hclosing hopening offset chars
              exact hpasses.crosses fun hless => ih _ hless next.offset next.rest rfl

theorem yields_inside (enclosure : Enclosure) (cursor : Cursor) :
    ∃ result, Yields enclosure.inside cursor result ∧
      result.map (·.2.rest) = enclosure.skim 0 cursor.rest := by
  obtain ⟨trees, next, hcrosses⟩ := enclosure.exists_crosses cursor
  exact hcrosses.inside

def afterBlock (enclosure : Enclosure) : List Char → Option (List Char)
  | [] => none
  | c :: chars => if c = enclosure.opening then enclosure.skim 0 chars else none

theorem yields_block (enclosure : Enclosure) (cursor : Cursor) :
    ∃ result, Yields enclosure.terminal.body cursor result ∧
      result.map (·.2.rest) = enclosure.afterBlock cursor.rest := by
  obtain ⟨offset, chars⟩ := cursor
  rw [terminal_body]
  cases chars with
  | nil => exact ⟨none, .noFirst (.noLiteral (by simp [Cursor.expect?])), rfl⟩
  | cons c chars =>
      by_cases hopening : c = enclosure.opening
      · subst hopening
        obtain ⟨result, hinside, hresult⟩ := enclosure.yields_inside ⟨offset + 1, chars⟩
        have hopen := yields_singleton enclosure.opening offset chars
        rw [afterBlock, if_pos rfl, ← hresult]
        cases result with
        | none => exact ⟨none, .noSecond hopen hinside, rfl⟩
        | some found => exact ⟨some _, .seq hopen hinside, rfl⟩
      · rw [afterBlock, if_neg hopening]
        exact ⟨none, .noFirst (refuses_literal (String.toList_singleton _) hopening chars offset),
          rfl⟩

end Enclosure

end GrammarLint.Grammar
