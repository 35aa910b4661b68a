import GrammarLint.Proofs.Faultless
import GrammarLint.Proofs.LineBreaks
import GrammarLint.Proofs.TokenPlaces

/-!
# Delimiters on lines of their own

What is said of the colon and the semicolon of a rule, by what stands before them on their
lines.  A delimiter is reported if a token stands before it on its line, but for one case:
a block of code that begins on an earlier line and ends on this one is not seen.
-/

namespace GrammarLint

open Grammar Text

/-! ## What stands before a delimiter -/

/-- Some character of a token stands on the line of the delimiter, before it. -/
def Crowded (chars : List Char) (tokens : List Token) (delimiter : Token) : Prop :=
  ∃ token ∈ tokens, ∃ before inside c rest, token.After chars before ∧
    token.text.toList = inside ++ c :: rest ∧
    delimiter.line = (before ++ inside).count '\n' + 1 ∧
    Position.sinceBreak (before ++ inside) < delimiter.column

/-- The token before the delimiter begins on an earlier line and ends on that of the
delimiter. -/
def Straddled (tokens : List Token) (delimiter : Token) : Prop :=
  ∃ token ∈ tokens, token.index + 1 = delimiter.index ∧ token.line < delimiter.line ∧
    token.line + token.text.toList.count '\n' = delimiter.line

/-- What the check sees before a delimiter on its line: any token, but for a block from an
earlier line that ends there. -/
def Shared (chars : List Char) (tokens : List Token) (delimiter : Token) : Prop :=
  Crowded chars tokens delimiter ∧ ¬Straddled tokens delimiter

theorem Token.Matched.last_eq {token : Token} (h : token.Matched) :
    ∃ inside c, token.text.toList = inside ++ [c] ∧ c ≠ '\n' := by
  by_cases haction : token.type = .actionBlock
  · exact ⟨_, _, text_of_brackets '\x7b' '\x7d' h (by rw [haction]; rfl) rfl rfl, by decide⟩
  by_cases hargs : token.type = .argBlock
  · exact ⟨_, _, text_of_brackets '[' ']' h (by rw [hargs]; rfl) rfl rfl, by decide⟩
  have hline := h.oneLine (by simp [blockTypes, haction, hargs])
  obtain hnil | ⟨inside, c, htext⟩ := List.eq_nil_or_concat' token.text.toList
  · exact absurd (by simpa using hnil) h.text_ne
  · refine ⟨inside, c, htext, fun hbreak => hline ?_⟩
    simp [htext, hbreak]

namespace Laid

variable {chars start stop : List Char} {laid : List (List Char × Token)} {place later : Nat}
  {previous delimiter : Token}

theorem end_isPrefix (h : Laid chars laid) (hprevious : laid[place]? = some (start, previous))
    (hdelimiter : laid[later]? = some (stop, delimiter)) (hlater : place < later) :
    start ++ previous.text.toList <+: stop := by
  obtain ⟨hless, heq⟩ := List.getElem?_eq_some_iff.1 hprevious
  obtain ⟨hless', heq'⟩ := List.getElem?_eq_some_iff.1 hdelimiter
  have hordered := List.pairwise_iff_getElem.1 h.ordered _ _ hless hless' hlater
  rwa [heq, heq'] at hordered

theorem end_le_of_lt (h : Laid chars laid) (hprevious : laid[place]? = some (start, previous))
    (hdelimiter : laid[place + 1]? = some (stop, delimiter)) {before : List Char}
    {token : Token} (hentry : (before, token) ∈ laid) (hbefore : before.length < stop.length) :
    (before ++ token.text.toList).length ≤ (start ++ previous.text.toList).length := by
  obtain ⟨other, hother⟩ := List.mem_iff_getElem?.1 hentry
  rcases Nat.lt_trichotomy other place with hless | rfl | hmore
  · have hends := (h.end_isPrefix hother hprevious hless).length_le
    exact hends.trans (by simp)
  · rw [hprevious] at hother
    cases hother
    exact le_rfl
  · have hstop : stop.length ≤ before.length := by
      rcases Nat.eq_or_lt_of_le hmore with rfl | hless
      · rw [hdelimiter] at hother
        cases hother
        exact le_rfl
      · have hends := (h.end_isPrefix hdelimiter hother hless).length_le
        rw [List.length_append] at hends
        omega
    omega

theorem line_le (h : Laid chars laid) (hprevious : laid[place]? = some (start, previous))
    (hdelimiter : laid[place + 1]? = some (stop, delimiter)) :
    previous.line + previous.text.toList.count '\n' ≤ delimiter.line := by
  have hbegins : previous.After chars start := h.after _ (List.mem_of_getElem? hprevious)
  have hstands : delimiter.After chars stop := h.after _ (List.mem_of_getElem? hdelimiter)
  have hends := h.end_isPrefix hprevious hdelimiter (Nat.lt_succ_self place)
  have hcount := hends.sublist.count_le '\n'
  rw [List.count_append] at hcount
  rw [hbegins.line_eq, hstands.line_eq]
  omega

theorem line_eq_of_crowded (h : Laid chars laid) (hprevious : laid[place]? = some (start, previous))
    (hdelimiter : laid[place + 1]? = some (stop, delimiter))
    (hcrowded : Crowded chars (laid.map Prod.snd) delimiter) :
    previous.line + previous.text.toList.count '\n' = delimiter.line := by
  obtain ⟨token, htoken, before, inside, c, rest, hafter, htext, hsame, hcolumn⟩ := hcrowded
  obtain ⟨⟨other, _⟩, hentry, rfl⟩ := List.mem_map.1 htoken
  obtain rfl : before = other := hafter.unique (h.after _ hentry)
  have hbegins : previous.After chars start := h.after _ (List.mem_of_getElem? hprevious)
  have hstands : delimiter.After chars stop := h.after _ (List.mem_of_getElem? hdelimiter)
  have hline := hbegins.line_eq
  have hline' := hstands.line_eq
  have hcolumn' := hstands.column_eq
  have hspelt : before ++ inside <+: chars := by
    refine List.IsPrefix.trans ?_ hafter.spelt
    rw [htext, ← List.append_assoc]
    exact List.prefix_append _ _
  obtain ⟨hinside, hless⟩ := Position.lt_of_column hspelt
    ((List.prefix_append _ _).trans hstands.spelt) (by omega) (by omega)
  have hbetween : before ++ inside <+: start ++ previous.text.toList := by
    have hle := h.end_le_of_lt hprevious hdelimiter hentry (lt_of_le_of_lt (by simp) hless)
    refine List.prefix_of_prefix_length_le hinside
      (h.end_isPrefix hprevious hdelimiter (Nat.lt_succ_self place)) (le_trans ?_ hle)
    simp [htext]
  have hcount := hbetween.sublist.count_le '\n'
  have hle := h.line_le hprevious hdelimiter
  simp only [List.count_append] at hcount hsame
  omega

theorem crowded_of_line_eq (h : Laid chars laid)
    (hprevious : laid[place]? = some (start, previous))
    (hdelimiter : laid[place + 1]? = some (stop, delimiter)) (hmatched : previous.Matched)
    (hsame : previous.line + previous.text.toList.count '\n' = delimiter.line) :
    Crowded chars (laid.map Prod.snd) delimiter := by
  have hbegins : previous.After chars start := h.after _ (List.mem_of_getElem? hprevious)
  have hstands : delimiter.After chars stop := h.after _ (List.mem_of_getElem? hdelimiter)
  have hline := hbegins.line_eq
  have hline' := hstands.line_eq
  have hcolumn := hstands.column_eq
  obtain ⟨inside, c, htext, hbreak⟩ := hmatched.last_eq
  have hinside : (start ++ inside).count '\n' = stop.count '\n' := by
    have hcount : previous.text.toList.count '\n' = inside.count '\n' := by
      simp [htext, hbreak]
    rw [List.count_append]
    omega
  have hends := h.end_isPrefix hprevious hdelimiter (Nat.lt_succ_self place)
  rw [htext, ← List.append_assoc] at hends
  have hlength := hends.length_le
  have hplace := Position.of_isPrefix ((List.prefix_append _ _).trans hends)
  simp only [List.length_append, List.length_singleton] at hlength hplace
  exact ⟨previous, List.mem_map_of_mem (List.mem_of_getElem? hprevious), start, inside, c, [],
    hbegins, htext, by omega, by omega⟩

theorem crowded_iff (h : Laid chars laid) (hprevious : laid[place]? = some (start, previous))
    (hdelimiter : laid[place + 1]? = some (stop, delimiter)) (hmatched : previous.Matched) :
    Crowded chars (laid.map Prod.snd) delimiter ↔
      previous.line + previous.text.toList.count '\n' = delimiter.line :=
  ⟨h.line_eq_of_crowded hprevious hdelimiter, h.crowded_of_line_eq hprevious hdelimiter hmatched⟩

end Laid

theorem Source.line_eq_iff {text : String} {file : Option String} {source : Source}
    (h : Source.parse text file = .ok source) {previous delimiter : Token}
    (hprevious : previous ∈ source.tokens.toList) (hdelimiter : delimiter ∈ source.tokens.toList)
    (hindex : previous.index + 1 = delimiter.index) :
    previous.line = delimiter.line ↔ Shared text.toList source.tokens.toList delimiter := by
  have hknown := Source.known h hprevious
  have hplace := hknown.at_index
  have hplace' := (Source.known h hdelimiter).at_index
  have hstraddled : Straddled source.tokens.toList delimiter ↔ previous.line < delimiter.line ∧
      previous.line + previous.text.toList.count '\n' = delimiter.line := by
    refine ⟨?_, fun hends => ⟨previous, hprevious, hindex, hends⟩⟩
    rintro ⟨token, htoken, hnext, hends⟩
    have hat := (Source.known h htoken).at_index
    rw [show token.index = previous.index by omega, hplace] at hat
    cases hat
    exact hends
  obtain ⟨laid, htokens, hlaid⟩ := Source.laid h
  rw [← htokens, List.getElem?_map, Option.map_eq_some_iff] at hplace hplace'
  obtain ⟨⟨start, token⟩, hstart, rfl⟩ := hplace
  obtain ⟨⟨stop, sign⟩, hstop, rfl⟩ := hplace'
  rw [← hindex] at hstop
  have hle := hlaid.line_le hstart hstop
  rw [Shared, hstraddled, ← htokens, hlaid.crowded_iff hstart hstop hknown.matched]
  dsimp only at hle ⊢
  omega

/-! ## What is said of a delimiter -/

def sharedRemark (symbol : String) (delimiter : Token) : Remark :=
  ⟨delimiter.line, s!"{symbol} of a rule needs to be on its own line."⟩

def displacedRemark (symbol : String) (delimiter : Token) : Remark :=
  ⟨delimiter.line, s!"{symbol} of a rule should be indented by 4 spaces " ++
    s!"but was indented by {delimiter.column}"⟩

/-- What is said of a delimiter: that its line is shared, or else that it is displaced, or
else nothing. -/
structure Judged (chars : List Char) (tokens : List Token) (symbol : String)
    (delimiter : Token) (remarks : List Remark) : Prop where
  shared : remarks = [sharedRemark symbol delimiter] ↔ Shared chars tokens delimiter
  displaced : remarks = [displacedRemark symbol delimiter] ↔
    ¬Shared chars tokens delimiter ∧ delimiter.column ≠ 4
  silent : remarks = [] ↔ ¬Shared chars tokens delimiter ∧ delimiter.column = 4

theorem sharedRemark_ne (symbol : String) (delimiter : Token) :
    sharedRemark symbol delimiter ≠ displacedRemark symbol delimiter := by
  intro h
  have htext := congrArg (fun remark => remark.message.toList) h
  simp [sharedRemark, displacedRemark, toString, String.toList_append] at htext

theorem judged_of_cases {chars : List Char} {tokens : List Token} {symbol : String}
    {delimiter : Token} {remarks : List Remark}
    (hshared : Shared chars tokens delimiter → remarks = [sharedRemark symbol delimiter])
    (hdisplaced : ¬Shared chars tokens delimiter → delimiter.column ≠ 4 →
      remarks = [displacedRemark symbol delimiter])
    (hsilent : ¬Shared chars tokens delimiter → delimiter.column = 4 → remarks = []) :
    Judged chars tokens symbol delimiter remarks := by
  have hne := sharedRemark_ne symbol delimiter
  by_cases hown : Shared chars tokens delimiter
  · constructor <;> simp [hshared hown, hown, hne]
  · by_cases hcolumn : delimiter.column = 4
    · constructor <;> simp [hsilent hown hcolumn, hown, hcolumn]
    · constructor <;> simp [hdisplaced hown hcolumn, hown, hcolumn, hne.symm]

theorem Source.getElem?_of_tokenBefore {source : Source} {node : Node} {previous : Token}
    (h : source.tokenBefore node = .ok (some previous)) :
    ∃ place : Nat, node.tokenIndex = place + 1 ∧ source.tokens.toList[place]? = some previous := by
  rw [tokenBefore] at h
  split at h
  · cases h
  · split at h
    next token hplace =>
      cases h
      exact ⟨(node.tokenIndex - 1).toNat, by omega, by rw [Array.getElem?_toList, hplace]⟩
    next => cases h

section Parsed

variable {text : String} {file : Option String} {source : Source}

theorem Source.exists_before (h : Source.parse text file = .ok source) {sign : Mark}
    {delimiter : Token} {node : Node} (hdelimiter : delimiter ∈ source.tokens.toList)
    (htype : delimiter.type = .mark sign) (hindex : node.tokenIndex = delimiter.index) :
    ∃ previous ∈ source.tokens.toList, previous.index + 1 = delimiter.index ∧
      source.tokenBefore node = .ok (some previous) := by
  obtain ⟨previous, hprevious⟩ := (Source.delimits h hdelimiter htype hindex).before
  obtain ⟨place, hplace, hbefore⟩ := Source.getElem?_of_tokenBefore hprevious
  have hat := (Source.covers h).index_eq hbefore
  exact ⟨previous, List.mem_of_getElem? hbefore, by omega, hprevious⟩

theorem Source.judge_delimiter (h : Source.parse text file = .ok source) {sign : Mark}
    {delimiter : Token} (node : Node) (hdelimiter : delimiter ∈ source.tokens.toList)
    (htype : delimiter.type = .mark sign) (hindex : node.tokenIndex = delimiter.index)
    (hline : node.line = delimiter.line) (hcolumn : node.column = delimiter.column)
    (symbol : String) :
    ∃ remarks, Check.Delimiters.judge (some source) symbol node = .ofRemarks remarks ∧
      Judged text.toList source.tokens.toList symbol delimiter remarks := by
  obtain ⟨previous, hprevious, hnext, hbefore⟩ := Source.exists_before h hdelimiter htype hindex
  have hshared :=
    Source.line_eq_iff h hprevious hdelimiter hnext
  simp only [Check.Delimiters.judge, hbefore, hline, hcolumn]
  by_cases hsame : previous.line = delimiter.line
  · rw [if_pos hsame]
    refine ⟨_, rfl, judged_of_cases (fun _ => rfl) ?_ ?_⟩ <;>
      exact fun hown => absurd (hshared.1 hsame) hown
  · rw [if_neg hsame]
    refine ⟨_, rfl, judged_of_cases (fun hown => absurd (hshared.2 hown) hsame) ?_ ?_⟩
    · intro _ (hplace : ¬delimiter.column = indent)
      have hdigits : Nat.toDigits 10 indent = ['4'] := by decide
      simp [remarkIf, hplace, displacedRemark, ← String.toList_inj, toString, hdigits]
    · intro _ hplace
      simp [remarkIf, indent, hplace]

/-- The check of the delimiters of a rule judges the colon and the semicolon, at which the
body and the end of the rule stand.  It sees whatever stands before a delimiter on its line,
but for the end of a block that began on an earlier line. -/
theorem Source.delimiters_judged (h : Source.parse text file = .ok source) (settings : Settings)
    {rule : Site} (hrule : rule.node ∈ source.root.preorder) (hkind : rule.node.kind = .rule) :
    ∃ colon ∈ source.tokens.toList, ∃ semicolon ∈ source.tokens.toList,
      ∃ body ending first second,
        (colon.type = .mark .colon ∧ rule.node.firstOfKind? .block = some body ∧
          body.tokenIndex = colon.index) ∧
        (semicolon.type = .mark .semicolon ∧ rule.node.firstOfKind? .endOfRule = some ending ∧
          ending.tokenIndex = semicolon.index) ∧
        Convention.delimiters.enter settings (some source) rule = .ofRemarks (first ++ second) ∧
        Judged text.toList source.tokens.toList ":" colon first ∧
        Judged text.toList source.tokens.toList ";" semicolon second := by
  have hroot : Shape.Root source.root := Source.holds_root Shape.inductive_ofRule h
  rcases hroot.rule_or_plain hrule with ⟨hchild, -⟩ | hplain
  · obtain ⟨⟨colon, hcolon, block, htype, hblock⟩, semicolon, hsemicolon, htype', hend⟩ :=
      Source.holds_root inductive_delimited h rule.node hchild hkind
    obtain ⟨first, hfirst, hjudged⟩ :=
      Source.judge_delimiter h (block.anchor colon) hcolon htype rfl rfl rfl ":"
    obtain ⟨second, hsecond, hjudged'⟩ :=
      Source.judge_delimiter h (endNode semicolon) hsemicolon htype' rfl rfl rfl ";"
    refine ⟨colon, hcolon, semicolon, hsemicolon, _, _, first, second, ⟨htype, hblock, rfl⟩,
      ⟨htype', hend, rfl⟩, ?_, hjudged, hjudged'⟩
    simp [Convention.enter, Check.Delimiters.enter, hblock, hend,
      Check.Delimiters.judgeIfPresent, hfirst, hsecond, Reaction.followedBy, Reaction.ofRemarks]
  · exact absurd hkind hplain.not_rule

end Parsed

/-- A colon behind the end of a block, and a semicolon behind the body of the rule. -/
def Straddled.sampleText : String :=
  "grammar t;\na @init \x7b\n  \x7d : B;"

theorem Source.delimiters_judged_sample :
    ∃ source, Source.parse Straddled.sampleText none = .ok source ∧
      ∃ rule : Site, rule.node ∈ source.root.preorder ∧ rule.node.kind = .rule ∧
        (Convention.delimiters.enter {} (some source) rule).remarks =
          [⟨3, "; of a rule needs to be on its own line."⟩] ∧
        ∃ colon ∈ source.tokens.toList, ∃ semicolon ∈ source.tokens.toList,
          ∃ body ending first second,
            (colon.type = .mark .colon ∧ rule.node.firstOfKind? .block = some body ∧
              body.tokenIndex = colon.index) ∧
            (semicolon.type = .mark .semicolon ∧
              rule.node.firstOfKind? .endOfRule = some ending ∧
              ending.tokenIndex = semicolon.index) ∧
            Convention.delimiters.enter {} (some source) rule = .ofRemarks (first ++ second) ∧
            Judged Straddled.sampleText.toList source.tokens.toList ":" colon first ∧
            Judged Straddled.sampleText.toList source.tokens.toList ";" semicolon second := by
  have hfits : (Source.parse Straddled.sampleText none).toOption.any (fun source =>
      source.root.preorder.any fun node => node.kind == .rule &&
        (Convention.delimiters.enter {} (some source) ⟨node, []⟩).remarks ==
          [⟨3, "; of a rule needs to be on its own line."⟩]) = true := by
    decide +kernel
  obtain ⟨source, hsource⟩ := Source.exists_of_isSome (Option.isSome_of_any hfits)
  simp only [hsource, Except.toOption, Option.any_some, List.any_eq_true, Bool.and_eq_true,
    beq_iff_eq] at hfits
  obtain ⟨node, hnode, hkind, hremarks⟩ := hfits
  exact ⟨source, hsource, ⟨node, []⟩, hnode, hkind, hremarks,
    Source.delimiters_judged hsource {} hnode hkind⟩

/-- A block that ends on the line of a colon, where nothing is said of the colon. -/
theorem Source.delimiters_straddled :
    let text := "grammar t;\na @init \x7b\n  \x7d : B\n    ;"
    let colon : Token := ⟨.mark .colon, ":", 3, 4, 7⟩
    ∃ source, Source.parse text none = .ok source ∧ ∃ rule ∈ source.root.preorder,
      rule.kind = .rule ∧ colon ∈ source.tokens.toList ∧
        (rule.firstOfKind? .block).map (·.tokenIndex) = some (colon.index : Int) ∧
        Crowded text.toList source.tokens.toList colon ∧
        Convention.delimiters.enter {} (some source) ⟨rule, []⟩ = .silent := by
  intro text colon
  let block : Token := ⟨.actionBlock, "\x7b\n  \x7d", 2, 8, 6⟩
  have hfits : (Source.parse text none).toOption.any (fun source =>
      source.tokens.toList.contains block && source.tokens.toList.contains colon &&
        source.root.preorder.any fun node => node.kind == .rule &&
          (node.firstOfKind? .block).map (·.tokenIndex) == some (colon.index : Int) &&
          (Convention.delimiters.enter {} (some source) ⟨node, []⟩).remarks == [] &&
          (Convention.delimiters.enter {} (some source) ⟨node, []⟩).fault.isNone) = true := by
    decide +kernel
  obtain ⟨source, hsource⟩ := Source.exists_of_isSome (Option.isSome_of_any hfits)
  simp only [hsource, Except.toOption, Option.any_some, List.any_eq_true, Bool.and_eq_true,
    beq_iff_eq, List.contains_iff_mem, Option.isNone_iff_eq_none] at hfits
  obtain ⟨⟨hblock, hcolon⟩, node, hnode, ⟨⟨hkind, hplace⟩, hremarks⟩, hfault⟩ := hfits
  refine ⟨source, hsource, node, hnode, hkind, hcolon, hplace, ?_, ?_⟩
  · refine ⟨block, hblock, "grammar t;\na @init ".toList, "\x7b\n  ".toList, '\x7d', [], ?_, ?_⟩
    · exact ⟨by decide, by decide, by decide⟩
    · exact ⟨by decide, by decide, by decide⟩
  · exact congrArg₂ Reaction.mk hremarks hfault

end GrammarLint
