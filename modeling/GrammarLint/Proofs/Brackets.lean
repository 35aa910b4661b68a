import GrammarLint.Proofs.Embedded

/-!
# Blocks by counting brackets

A scanner that knows nothing of rules: from the opening bracket on it counts brackets,
and passes over strings and comments.  A block is matched exactly where the scanner comes
back to no open bracket, and up to there.
-/

namespace GrammarLint.Grammar

open Text

/-- The text after a string, from behind its opening quote; `escaped` if a backslash stands
in front. -/
def afterLiteral (quote : Char) : (escaped : Bool) → List Char → Option (List Char)
  | _, [] => none
  | escaped, c :: chars =>
      if c = '\n' then none
      else if escaped then afterLiteral quote false chars
      else if c = quote then some chars
      else afterLiteral quote (c == '\\') chars

def afterStarSlash (chars : List Char) : Option (List Char) :=
  (chars.tails.find? (['*', '/'].isPrefixOf ·)).map (·.drop 2)

def afterSlash : List Char → List Char
  | '/' :: chars => chars.dropWhile (· != '\n')
  | '*' :: chars => (afterStarSlash chars).getD ('*' :: chars)
  | chars => chars

theorem afterStarSlash_cons (c : Char) (chars : List Char) :
    afterStarSlash (c :: chars) =
      if ['*', '/'].isPrefixOf (c :: chars) then some (chars.drop 1) else afterStarSlash chars := by
  rw [afterStarSlash, List.tails_cons, List.find?_cons]
  cases hfront : ['*', '/'].isPrefixOf (c :: chars) <;> simp [afterStarSlash]

theorem afterLiteral_eq {quote : Char} (hslash : quote ≠ '\\') (hfeed : quote ≠ '\n')
    (chars : List Char) :
    afterLiteral quote false chars = (scanQuotedBody? quote chars).map Prod.snd := by
  fun_induction scanQuotedBody? quote chars with
  | case1 => rfl
  | case2 chars => simp [afterLiteral, Ne.symm hslash]
  | case3 c chars hc ih =>
      rw [Option.map_map]
      change _ = (scanQuotedBody? quote chars).map Prod.snd
      simpa [afterLiteral, Ne.symm hslash, hc] using ih
  | case4 chars => simp [afterLiteral, hfeed]
  | case5 c chars hescape hquote hends =>
      rcases hends with rfl | rfl
      · simp [afterLiteral]
      · cases chars with
        | nil => simp [afterLiteral, hquote]
        | cons d chars => exact (hescape d chars rfl rfl).elim
  | case6 c chars _ hquote hends ih =>
      rw [not_or] at hends
      have hplain : (c == '\\') = false := beq_false_of_ne hends.2
      rw [Option.map_map]
      change _ = (scanQuotedBody? quote chars).map Prod.snd
      simpa [afterLiteral, hquote, hends.1, hplain] using ih

theorem afterStarSlash_eq (chars : List Char) :
    afterStarSlash chars = (scanCommentBody? chars).map Prod.snd := by
  fun_induction scanCommentBody? chars with
  | case1 => rfl
  | case2 chars => simp [afterStarSlash_cons, List.isPrefixOf]
  | case3 c chars hopen ih =>
      rw [Option.map_map, afterStarSlash_cons, if_neg]
      · exact ih
      · rw [List.isPrefixOf_iff_prefix]
        rintro ⟨rest, hrest⟩
        obtain ⟨hstar, hslash⟩ := List.cons.inj hrest
        exact hopen rest hstar.symm hslash.symm

namespace Enclosure

/-- The text after what the scanner passes at once: a string, a comment, or the character
alone. -/
def past (enclosure : Enclosure) (c : Char) (chars : List Char) : List Char :=
  if c = '"' ∨ c = '\'' then (afterLiteral c false chars).getD chars
  else if enclosure = .braces ∧ c = '/' then afterSlash chars
  else chars

theorem scan?_quoted_eq {quote : Char} (hquote : quote = '"' ∨ quote = '\'') (chars : List Char) :
    ((Pattern.quoted quote).scan? (quote :: chars)).map Prod.snd =
      afterLiteral quote false chars := by
  have hslash : quote ≠ '\\' := by rcases hquote with rfl | rfl <;> decide
  have hfeed : quote ≠ '\n' := by rcases hquote with rfl | rfl <;> decide
  rw [afterLiteral_eq hslash hfeed, Pattern.scan?, if_pos rfl, Option.map_map]
  rfl

theorem comment?_eq_afterSlash (chars : List Char) :
    (Enclosure.braces.comment? ('/' :: chars)).elim chars Prod.snd = afterSlash chars := by
  cases chars with
  | nil => rfl
  | cons d chars =>
      by_cases hline : d = '/'
      · subst hline
        rfl
      · by_cases hblock : d = '*'
        · subst hblock
          rw [afterSlash, afterStarSlash_eq]
          cases hbody : scanCommentBody? chars <;>
            simp [comment?, scanLineComment?, scanBlockComment?, hbody]
        · rw [afterSlash.eq_def]
          simp [comment?, scanLineComment?, scanBlockComment?, hline, hblock]

theorem past_eq_hop (enclosure : Enclosure) (c : Char) (chars : List Char) :
    enclosure.past c chars = enclosure.hop (c :: chars) := by
  have hother {quote : Char} (hne : c ≠ quote) :
      (Pattern.quoted quote).scan? (c :: chars) = none := by simp [Pattern.scan?, hne]
  unfold past hop
  by_cases hdouble : c = '"'
  · subst hdouble
    have hquoted := scan?_quoted_eq (.inl rfl) chars
    rw [if_pos (.inl rfl), ← hquoted, @hother '\'' (by decide),
      comment?_eq_none _ _ (.inr (by decide))]
    cases (Pattern.quoted '"').scan? ('"' :: chars) <;> rfl
  · by_cases hsingle : c = '\''
    · subst hsingle
      have hquoted := scan?_quoted_eq (.inr rfl) chars
      rw [if_pos (.inr rfl), ← hquoted, @hother '"' (by decide),
        comment?_eq_none _ _ (.inr (by decide))]
      cases (Pattern.quoted '\'').scan? ('\'' :: chars) <;> rfl
    · rw [if_neg (by simp [hdouble, hsingle]), hother hdouble, hother hsingle]
      by_cases hcomment : enclosure = .braces ∧ c = '/'
      · obtain ⟨rfl, rfl⟩ := hcomment
        rw [if_pos ⟨rfl, rfl⟩, ← comment?_eq_afterSlash]
        cases Enclosure.braces.comment? ('/' :: chars) <;> rfl
      · rw [if_neg hcomment, comment?_eq_none]
        · rfl
        · cases enclosure with
          | brackets => exact .inl rfl
          | braces => exact .inr fun h => hcomment ⟨rfl, h⟩

theorem past_length (enclosure : Enclosure) (c : Char) (chars : List Char) :
    (enclosure.past c chars).length < (c :: chars).length :=
  past_eq_hop enclosure c chars ▸ enclosure.hop_length c chars

/-- The text after the place where the scanner is back to no open bracket. -/
def scan (enclosure : Enclosure) (depth : Nat) : List Char → Option (List Char)
  | [] => none
  | c :: chars =>
      if c = enclosure.opening then enclosure.scan (depth + 1) chars
      else if c = enclosure.closing then
        if depth ≤ 1 then some chars else enclosure.scan (depth - 1) chars
      else enclosure.scan depth (enclosure.past c chars)
termination_by chars => chars.length
decreasing_by
  · simp
  · simp
  · exact enclosure.past_length c chars

theorem scan_succ (enclosure : Enclosure) (depth : Nat) (chars : List Char) :
    enclosure.scan (depth + 1) chars = enclosure.skim depth chars := by
  induction depth, chars using skim_induction enclosure with
  | ends depth => simp [scan]
  | leaves chars => simp [scan, enclosure.opening_ne_closing.symm]
  | closes depth chars ih => simpa [scan, enclosure.opening_ne_closing.symm] using ih
  | opens depth chars ih =>
      rw [scan, if_pos rfl, skim_opening]
      exact ih
  | hops depth c chars hclosing hopening ih =>
      rw [scan, if_neg hopening, if_neg hclosing, skim_hop _ hclosing hopening, past_eq_hop]
      exact ih

theorem scan_opening (enclosure : Enclosure) (chars : List Char) :
    enclosure.scan 0 (enclosure.opening :: chars) =
      enclosure.afterBlock (enclosure.opening :: chars) := by
  rw [scan, if_pos rfl, scan_succ, afterBlock, if_pos rfl]

end Enclosure

theorem scan_of_yields {enclosure : Enclosure} {offset : Nat} {chars : List Char}
    {found : Option (List Tree × Cursor)}
    (h : Yields (.rule (.terminal enclosure.terminal)) ⟨offset, enclosure.opening :: chars⟩ found) :
    found.map (·.2.rest) = enclosure.scan 0 (enclosure.opening :: chars) := by
  obtain ⟨result, hyields, hresult⟩ := enclosure.yields_block ⟨offset, enclosure.opening :: chars⟩
  rw [enclosure.scan_opening, ← hresult]
  cases h with
  | rule hbody =>
      rw [Rule.body_terminal] at hbody
      rw [hyields.unique hbody]
      rfl
  | noRule hbody =>
      rw [Rule.body_terminal] at hbody
      rw [hyields.unique hbody]

/-- At an opening bracket in a text a block is matched if and only if the scanner comes back
to no open bracket, and then it ends there. -/
theorem matchRule_block_iff (enclosure : Enclosure) (before chars : List Char)
    (fuel : Nat) (progress : Progress)
    (hsound : progress.Sound (before ++ enclosure.opening :: chars))
    (hfuel : fuelFor (before ++ enclosure.opening :: chars) ≤ fuel) :
    let outcome := (matchRule fuel (.terminal enclosure.terminal)
      ⟨before.length, enclosure.opening :: chars⟩ progress).1
    (∀ next : Cursor, (∃ tree, outcome = .matched tree next) ↔
      enclosure.scan 0 (enclosure.opening :: chars) = some next.rest ∧
        next.offset + next.rest.length = (before ++ enclosure.opening :: chars).length) ∧
    (outcome = .failed ↔ enclosure.scan 0 (enclosure.opening :: chars) = none) := by
  intro outcome
  have hlies : Lies (before ++ enclosure.opening :: chars)
      ⟨before.length, enclosure.opening :: chars⟩ := List.drop_left.symm
  have hsettles := (matchRule_evaluates _ fuel (.terminal enclosure.terminal) _ progress hlies
    hsound (by
      have := (Rule.terminal enclosure.terminal).rank_le
      simp only [fuelFor, List.length_append, Nat.mul_succ, Nat.mul_add] at hfuel
      simp only
      omega)).settles
  change RuleSettles _ _ outcome at hsettles
  generalize outcome = reached at hsettles
  cases reached with
  | matched tree next =>
      have hscan : some next.rest = _ := scan_of_yields hsettles
      have hmoves := hsettles.moves
      have hend : next.offset + next.rest.length =
          (before ++ enclosure.opening :: chars).length := by
        have hoffset := hmoves.offset_eq
        have hlength := hmoves.length_eq
        simp only [List.length_append] at *
        omega
      refine ⟨fun other => ⟨?_, ?_⟩, by simp [← hscan]⟩
      · rintro ⟨found, hfound⟩
        cases hfound
        exact ⟨hscan.symm, hend⟩
      · rintro ⟨hrest, hother⟩
        obtain ⟨offset, rest⟩ := other
        obtain ⟨place, found⟩ := next
        rw [← hscan, Option.some.injEq] at hrest
        obtain rfl : found = rest := hrest
        obtain rfl : place = offset := Nat.add_right_cancel (hend.trans hother.symm)
        exact ⟨tree, rfl⟩
  | failed =>
      have hscan : none = _ := scan_of_yields hsettles
      simp [← hscan]
  | exhausted => exact absurd hsettles id

/-- A bracket in a string, a nested block, an escaped quote, and a quote alone. -/
theorem matchRule_block_nested :
    Enclosure.braces.scan 0 "\x7b\"\x7d\"\x7b/*\x7d*/\x7d'\x7d:".toList = some [':'] ∧
    ∃ tree, (matchRule (fuelFor "a\x7b\"\x7d\"\x7b/*\x7d*/\x7d'\x7d:".toList)
      (.terminal .actionBlock) ⟨1, "\x7b\"\x7d\"\x7b/*\x7d*/\x7d'\x7d:".toList⟩ {}).1 =
        .matched tree ⟨14, [':']⟩ := by
  have hscan :
      Enclosure.braces.scan 0 "\x7b\"\x7d\"\x7b/*\x7d*/\x7d'\x7d:".toList = some [':'] := by
    decide +kernel
  refine ⟨hscan, ?_⟩
  exact ((matchRule_block_iff .braces ['a'] "\"\x7d\"\x7b/*\x7d*/\x7d'\x7d:".toList _ {}
    (Progress.Sound.empty _) (Nat.le_refl _)).1 ⟨14, [':']⟩).2 ⟨hscan, rfl⟩

end GrammarLint.Grammar
