import GrammarLint.Proofs.EntryBlocks
import GrammarLint.Proofs.Independence
import GrammarLint.Proofs.LineBreaks
import GrammarLint.Proofs.TokenPlaces

/-!
# Verdicts on entries

What the checks of spacing and of indentation report of a file, read off its text and its
tokens: each entry of the blocks they are about is judged once, in the order of the text.
Spacing is judged by the text between the tokens of an entry, indentation by their lines
and columns.
-/

namespace GrammarLint

open Grammar Text

/-! ## Text between tokens -/

/-- The text from the end of the one token to the start of the other. -/
def Between (chars : List Char) (left right : Token) (gap : List Char) : Prop :=
  ∃ before, left.After chars before ∧ right.After chars (before ++ left.text.toList ++ gap)

namespace Between

variable {chars gap : List Char} {left right : Token}

theorem unique {other : List Char} (h : Between chars left right gap)
    (hother : Between chars left right other) : gap = other := by
  obtain ⟨before, hleft, hright⟩ := h
  obtain ⟨start, hleft', hright'⟩ := hother
  obtain rfl := hleft.unique hleft'
  exact List.append_cancel_left (hright.unique hright')

theorem line_eq_iff (h : Between chars left right gap) (hleft : '\n' ∉ left.text.toList) :
    left.line = right.line ↔ '\n' ∉ gap := by
  obtain ⟨before, hbefore, hafter⟩ := h
  have hnone := List.count_eq_zero.2 hleft
  rw [hbefore.line_eq, hafter.line_eq, ← List.count_eq_zero, List.count_append,
    List.count_append]
  omega

theorem column_eq (h : Between chars left right gap) (hleft : '\n' ∉ left.text.toList)
    (hgap : '\n' ∉ gap) : right.column = left.column + left.text.length + gap.length := by
  obtain ⟨before, hbefore, hafter⟩ := h
  have hplain : '\n' ∉ left.text.toList ++ gap := by simp [hleft, hgap]
  rw [hbefore.column_eq, hafter.column_eq, List.append_assoc,
    Position.sinceBreak_append hplain, List.length_append, String.length_toList]
  omega

end Between

theorem Source.exists_between {text : String} {file : Option String} {source : Source}
    (h : Source.parse text file = .ok source) {left right : Token}
    (hsublist : [left, right].Sublist source.tokens.toList) :
    ∃ gap, Between text.toList left right gap := by
  obtain ⟨laid, htokens, hlaid⟩ := Source.laid h
  rw [← htokens] at hsublist
  obtain ⟨pair, hpair, hmap⟩ := List.sublist_map_iff.1 hsublist
  obtain ⟨first, later, rfl, rfl, hlater⟩ := List.map_eq_cons_iff.1 hmap.symm
  obtain ⟨second, others, rfl, rfl, -⟩ := List.map_eq_cons_iff.1 hlater
  obtain ⟨hfirst, -⟩ := List.pairwise_cons.1 (hlaid.ordered.sublist hpair)
  obtain ⟨gap, hgap⟩ := hfirst second List.mem_cons_self
  refine ⟨gap, first.1, hlaid.after first (hpair.subset (by simp)), ?_⟩
  rw [hgap]
  exact hlaid.after second (hpair.subset (by simp))

/-! ## Entries of blocks -/

def Source.entriesOf (source : Source) (selected : EntryBlock → Bool) : List Entry :=
  (source.blocks.filter selected).flatMap (·.entries)

theorem Matches.entries {block : EntryBlock} {listing : Listing} (h : Matches block listing) :
    List.Forall₂ (EntryOf block.word) block.entries listing.entries := by
  cases h with
  | options _ hentries => exact hentries
  | tokens _ hentries => exact hentries

theorem entries_match {word : Keyword} {selected : EntryBlock → Bool} {taken : Listing → Bool}
    (hselected : ∀ block, selected block = true → block.word = word)
    (htaken : ∀ block listing, Matches block listing → taken listing = selected block)
    {blocks : List EntryBlock} {listings : List Listing}
    (h : List.Forall₂ Matches blocks listings) :
    List.Forall₂ (EntryOf word) ((blocks.filter selected).flatMap (·.entries))
      ((listings.filter taken).flatMap (·.entries)) := by
  induction h with
  | nil => exact .nil
  | @cons block listing blocks listings hfirst _ ih =>
      rw [List.filter_cons, List.filter_cons, htaken block listing hfirst]
      cases hchosen : selected block with
      | false => exact ih
      | true =>
          have hentries := hfirst.entries
          rw [hselected block hchosen] at hentries
          exact List.rel_append hentries ih

theorem Source.flatMap_sites (source : Source) {kind : Kind} (hkind : kind ∈ listingKinds)
    {taken : Listing → Bool} {judge : Node → List Remark} {said : Site → List Remark}
    (htaken : ∀ listing, taken listing = true → listing.kind = kind)
    (hsaid : ∀ site : Site, site.node.kind = kind → said site =
      if taken site.listing then site.node.children.flatMap judge else []) :
    (source.sites.flatMap fun site => if site.node.kind ∈ [kind] then said site else []) =
      ((source.listings.filter taken).flatMap (·.entries)).flatMap judge := by
  rw [Source.listings]
  induction source.sites with
  | nil => rfl
  | cons site sites ih =>
      rw [List.flatMap_cons, List.filterMap_cons, ih, Site.listing?]
      by_cases hsite : site.node.kind = kind
      · rw [if_pos (by simp [hsite]), if_pos (by rwa [hsite]), hsaid site hsite, List.filter_cons]
        split <;> simp [List.flatMap_append, Site.listing]
      · have hnot : taken site.listing ≠ true := fun hchosen => hsite (htaken _ hchosen)
        rw [if_neg (by simpa using hsite), List.nil_append]
        split <;> simp_all [List.filter_cons]

theorem Source.exists_entries {text : String} {file : Option String} {source : Source}
    (h : Source.parse text file = .ok source) {word : Keyword} {kind : Kind}
    (hkind : kind ∈ listingKinds) {selected : EntryBlock → Bool} {taken : Listing → Bool}
    {judge : Node → List Remark} {said : Site → List Remark}
    (hselected : ∀ block, selected block = true → block.word = word)
    (htaken : ∀ block listing, Matches block listing → taken listing = selected block)
    (hkinds : ∀ listing, taken listing = true → listing.kind = kind)
    (hsaid : ∀ site : Site, site.node.kind = kind → said site =
      if taken site.listing then site.node.children.flatMap judge else []) :
    ∃ nodes, List.Forall₂ (EntryOf word) (source.entriesOf selected) nodes ∧
      (source.sites.flatMap fun site => if site.node.kind ∈ [kind] then said site else []) =
        nodes.flatMap judge :=
  ⟨_, entries_match hselected htaken (Source.blocks_match h),
    source.flatMap_sites hkind hkinds hsaid⟩

def Entry.Stands (chars : List Char) : Entry → Prop
  | .pair key sign value =>
      ('\n' ∉ key.text.toList ∧ ∃ gap, Between chars key sign gap) ∧
        '\n' ∉ sign.text.toList ∧ ∃ gap, Between chars sign value gap
  | .single _ => True

theorem Source.entry_stands {text : String} {file : Option String} {source : Source}
    (h : Source.parse text file = .ok source) {selected : EntryBlock → Bool} {entry : Entry}
    (hmember : entry ∈ source.entriesOf selected) : entry.Stands text.toList := by
  obtain ⟨block, hfiltered, hentry⟩ := List.mem_flatMap.1 hmember
  have hblock : block ∈ source.blocks := (List.mem_filter.1 hfiltered).1
  cases entry with
  | single => trivial
  | pair key sign value =>
      obtain ⟨rest, hentries, hrest⟩ := exists_of_mem_blocksFrom hblock
      rw [hentries] at hentry
      obtain ⟨hkey, hsign, hsublist⟩ := sublist_of_mem_entriesFrom hentry
      have htokens := hsublist.trans hrest
      have hplain {token : Token} (hmember : token ∈ [key, sign, value])
          (htype : token.type ∉ blockTypes) : '\n' ∉ token.text.toList :=
        ((Source.covers h).matched (htokens.subset hmember)).oneLine htype
      refine ⟨⟨hplain (by simp) (by simp [hkey, blockTypes]), ?_⟩,
        hplain (by simp) (by simp [hsign, blockTypes]), ?_⟩
      · exact Source.exists_between h (List.Sublist.trans (by simp) htokens)
      · exact Source.exists_between h ((List.sublist_cons_self _ _).trans htokens)

/-! ## Spacing -/

namespace Check.Spacing

def missing (pairType : String) (side : Side) : String :=
  pairType ++ " pair needs spaces around = and there was no space " ++ side.word ++ " ="

def surplus (pairType : String) (side : Side) : String :=
  pairType ++ " pair should not have spaces around = and space found " ++ side.word ++ " ="

/-- The verdict on one side of an equals sign, by the text on that side. -/
def GapVerdict (chars : List Char) (pairType : String) (spaced : Bool) (side : Side)
    (left right : Token) (remarks : List Remark) : Prop :=
  ∃ gap, Between chars left right gap ∧ remarks =
    if spaced then if gap = [] then [⟨right.line, missing pairType side⟩] else []
    else if gap ≠ [] ∧ '\n' ∉ gap then [⟨right.line, surplus pairType side⟩] else []

/-- A pair is judged before and after its equals sign, and nothing else is. -/
def EntryVerdict (chars : List Char) (pairType : String) (spaced : Bool) :
    Entry → List Remark → Prop
  | .pair key sign value => fun remarks =>
      ∃ first second, remarks = first ++ second ∧
        GapVerdict chars pairType spaced .before key sign first ∧
        GapVerdict chars pairType spaced .after sign value second
  | .single _ => fun remarks => remarks = []

variable {chars : List Char} {pairType : String} {spaced : Bool}

theorem judgeGap_eq (side : Side) (first second : Node) :
    judgeGap pairType spaced side first second =
      if first.line ≠ second.line then []
      else if spaced then
        remarkIf (!hasSpaceBetween first second) second.line (missing pairType side)
      else remarkIf (hasSpaceBetween first second) second.line (surplus pairType side) := by
  have hmissing : s!"{pairType} pair needs spaces around = and there was " ++
      s!"no space {side.word} =" = missing pairType side := by
    simp [missing, ← String.toList_inj, toString]
  have hsurplus : s!"{pairType} pair should not have spaces around = and " ++
      s!"space found {side.word} =" = surplus pairType side := by
    simp [surplus, ← String.toList_inj, toString]
  rw [judgeGap, hmissing, hsurplus]
  simp only [bne_iff_ne]

theorem gapVerdict_judgeGap {left right : Token} {gap : List Char} {first second : Node}
    (hgap : Between chars left right gap) (hleft : '\n' ∉ left.text.toList) (side : Side)
    (hfirst : first.line = left.line ∧ first.column = left.column ∧ first.text = left.text)
    (hsecond : second.line = right.line ∧ second.column = right.column) :
    GapVerdict chars pairType spaced side left right
      (judgeGap pairType spaced side first second) := by
  refine ⟨gap, hgap, ?_⟩
  have hline : first.line = second.line ↔ '\n' ∉ gap := by
    rw [hfirst.1, hsecond.1]
    exact hgap.line_eq_iff hleft
  have hspace (hbreak : '\n' ∉ gap) : hasSpaceBetween first second = !gap.isEmpty := by
    have hcolumn := hgap.column_eq hleft hbreak
    have hlength : first.text.length = left.text.length := by rw [hfirst.2.2]
    rw [hasSpaceBetween, hfirst.2.1, hsecond.2, hlength, hcolumn]
    cases gap with
    | nil => exact decide_eq_false (by simp only [List.length_nil]; omega)
    | cons => exact decide_eq_true (by simp only [List.length_cons]; omega)
  rw [judgeGap_eq, hsecond.1]
  by_cases hbreak : '\n' ∈ gap
  · have hother : first.line ≠ right.line := fun hsame =>
      hline.1 (hsame.trans hsecond.1.symm) hbreak
    have hsome : gap ≠ [] := List.ne_nil_of_mem hbreak
    simp [hother, hbreak, hsome]
  · have hsame : first.line = right.line := (hline.2 hbreak).trans hsecond.1
    rw [if_neg (not_not.2 hsame), hspace hbreak]
    cases gap <;> simp [remarkIf, hbreak]

theorem entryVerdict_judgeEntry {word : Keyword} {entry : Entry} {node : Node}
    (h : EntryOf word entry node) (hstands : entry.Stands chars) :
    EntryVerdict chars pairType spaced entry (judgeEntry pairType spaced node) := by
  cases h with
  | single => rfl
  | pair =>
      obtain ⟨⟨hkey, gap, hgap⟩, hsign, other, hother⟩ := hstands
      exact ⟨_, _, rfl, gapVerdict_judgeGap hgap hkey .before ⟨rfl, rfl, rfl⟩ ⟨rfl, rfl⟩,
        gapVerdict_judgeGap hother hsign .after ⟨rfl, rfl, rfl⟩ ⟨rfl, rfl⟩⟩

end Check.Spacing

/-! ## Indentation -/

namespace Check.Indentation

/-- The verdict on an entry, by the places of its tokens.  The name stands at column 4; an
equals sign and a value on a line of their own stand at column 8. -/
def verdict (pairName article : String) : Entry → List Remark
  | .pair key sign value =>
      remarkIf (key.column ≠ 4) key.line (misplaced pairName 4 key.column) ++
      remarkIf (key.line ≠ sign.line ∧ sign.column ≠ 8) sign.line
        (misplaced s!"= sign of {article} {pairName}" 8 sign.column) ++
      remarkIf (sign.line ≠ value.line ∧ value.column ≠ 8) value.line
        (misplaced s!"right hand side of {article} {pairName}" 8 value.column)
  | .single name =>
      remarkIf (name.column ≠ 4) name.line (misplaced "imaginary token" 4 name.column)

theorem judgePair_eq (block : Block) {key sign value : Token} {left right : Kind} :
    judgePair block (Assemble.pair sign (.ofToken left key) (.ofToken right value))
      (.ofToken left key) (.ofToken right value) =
    verdict block.pairName block.article (.pair key sign value) := by
  simp [judgePair, wrapped, verdict, indent, bne, Bool.beq_eq_decide_eq]

theorem judgeOption_eq {entry : Entry} {node : Node} (h : EntryOf .options entry node) :
    judgeOption node = verdict "option pair" "an" entry := by
  cases h with
  | pair => exact judgePair_eq options

theorem judgeToken_eq {entry : Entry} {node : Node} (h : EntryOf .tokens entry node) :
    judgeToken node = verdict "token pair" "a" entry := by
  cases h with
  | pair => exact judgePair_eq tokens
  | single => simp [judgeToken, Node.sides?, verdict, indent, bne, Bool.beq_eq_decide_eq]

def takes (block : Block) (listing : Listing) : Bool :=
  listing.kind = block.kind && listing.parent.any (block.parents.contains ·)

theorem enter_eq (block : Block) (judge : Node → List Remark) {site : Site}
    (hkind : site.node.kind = block.kind) : enter block judge site =
      if takes block site.listing then site.node.children.flatMap judge else [] := by
  unfold enter
  cases hparent : site.parent? with
  | none => simp [takes, Site.listing, hparent]
  | some parent => simp [takes, Site.listing, hparent, hkind]

theorem takes_options {block : EntryBlock} {listing : Listing} (h : Matches block listing) :
    takes options listing = decide (block.word = .options ∧ block.depth = 0) := by
  cases h with
  | @options depth parent _ _ hlevel =>
      have hparent : parent.any (options.parents.contains ·) = true ↔ depth = 0 := by
        rw [show depth = 0 ↔ _ from hlevel]
        cases parent <;> simp [options]
      have hkind : options.kind = .options := rfl
      rw [Bool.eq_iff_iff]
      simpa [takes, hkind] using hparent
  | tokens => rfl

theorem takes_tokens {block : EntryBlock} {listing : Listing} (h : Matches block listing) :
    takes tokens listing = decide (block.word = .tokens) := by
  cases h with
  | options => rfl
  | tokens hkind => simpa [takes, tokens] using hkind

end Check.Indentation

namespace Walker

open Files

variable {fs : FileSystem} {config : CheckConfig} {convention : Convention}
  {file text : String} {source : Source}

structure SpacingOf (convention : Convention) (word : Keyword) (pairType : String) (kind : Kind) :
    Prop where
  listed : kind ∈ listingKinds
  kinds_eq : convention.kinds = [kind]
  same_word : ∀ block listing, Matches block listing →
    decide (listing.kind = kind) = decide (block.word = word)
  prepare_eq : ∀ fs config spaced, config.getBool spacedOption (.bool true) = .ok spaced →
    convention.prepare fs config {} = .ok { spaced }
  remarks_eq : ∀ settings source site, (convention.enter settings (some source) site).remarks =
    site.node.children.flatMap (Check.Spacing.judgeEntry pairType settings.spaced)

theorem exists_spacingOf {word : Keyword} {pairType : String}
    (h : (convention, word, pairType) ∈
      [(Convention.optionsSpacing, Keyword.options, "option"),
        (.tokensSpacing, .tokens, "token")]) :
    ∃ kind, SpacingOf convention word pairType kind := by
  simp only [List.mem_cons, Prod.mk.injEq, List.not_mem_nil, or_false] at h
  rcases h with ⟨rfl, rfl, rfl⟩ | ⟨rfl, rfl, rfl⟩
  all_goals
    refine ⟨_, by decide, rfl, ?_, fun fs config spaced hspaced => ?_, fun _ _ _ => rfl⟩
    · rintro _ _ (_ | _) <;> rfl
    · simp only [Convention.prepare, hspaced, liftConfig]
      rfl

/-- The check of spacing judges every entry of its blocks once, in the order of the text, by
the text around the equals sign. -/
theorem process_spacing {word : Keyword} {pairType : String} {spaced : Bool}
    (hconvention : (convention, word, pairType) ∈
      [(Convention.optionsSpacing, Keyword.options, "option"), (.tokensSpacing, .tokens, "token")])
    (haccepted : (setupAll {} fs [config]).result = .ok [convention])
    (hspaced : config.getBool spacedOption (.bool true) = .ok spaced)
    (hparse : Source.parse text (some file) = .ok source) (files : FileSystem) :
    ∃ verdicts, List.Forall₂ (Check.Spacing.EntryVerdict text.toList pairType spaced)
        (source.entriesOf fun block => block.word = word) verdicts ∧
      ((setupAll {} fs [config]).walker.process files file (some text)).2.2.diagnostics =
        verdicts.flatten.map fun remark =>
          ⟨fileLabel (some file), remark.line, remark.message, convention.name,
            config.severity⟩ := by
  obtain ⟨settings, hprepare, hdiagnostics⟩ := process_convention haccepted hparse files
  obtain ⟨kind, hspacing⟩ := exists_spacingOf hconvention
  cases hprepare.symm.trans (hspacing.prepare_eq fs config spaced hspaced)
  obtain ⟨nodes, hentries, hsaid⟩ := Source.exists_entries hparse hspacing.listed
    (fun block => of_decide_eq_true) hspacing.same_word (fun listing => of_decide_eq_true)
    fun site hsite => (hspacing.remarks_eq { spaced } source site).trans
      (if_pos (decide_eq_true hsite)).symm
  refine ⟨nodes.map (Check.Spacing.judgeEntry pairType spaced), ?_, ?_⟩
  · have hstands : List.Forall₂ (fun entry node => entry.Stands text.toList ∧
        EntryOf word entry node) (source.entriesOf fun block => block.word = word) nodes :=
      (List.forall₂_and_left _ _).2 ⟨fun _ => Source.entry_stands hparse, hentries⟩
    refine List.forall₂_map_right_iff.2 (hstands.imp fun entry node hboth => ?_)
    exact Check.Spacing.entryVerdict_judgeEntry hboth.2 hboth.1
  · rw [hdiagnostics, hspacing.kinds_eq, hsaid, ← List.flatMap_def]

/-- Options with and without spaces, with a comment and a line break around the equals sign,
and in a subrule. -/
def sampleEntries : String :=
  "grammar t;options\x7ba=1;b/**/= 2;c\n= 3;\x7dtokens\x7bA= 'a';\n    B;\x7d" ++
    "r:(options\x7bk =4;\x7d:A);"

theorem exists_sampleEntries :
    ∃ source, Source.parse sampleEntries (some "t.g") = .ok source := by
  have hsome : (Source.parse sampleEntries (some "t.g")).toOption.isSome = true := by
    decide +kernel
  exact Source.exists_of_isSome hsome

theorem process_spacing_sample :
    ∃ source, Source.parse sampleEntries (some "t.g") = .ok source ∧
      (let config : CheckConfig := { name := "OptionsSpaceCheck" }
        let diagnostics := ((setupAll {} Reachable.sampleFiles [config]).walker.process
          Reachable.sampleFiles "t.g" (some sampleEntries)).2.2.diagnostics
        diagnostics.map (fun diagnostic => (diagnostic.line, diagnostic.message)) =
            [(1, "option pair needs spaces around = and there was no space before ="),
              (1, "option pair needs spaces around = and there was no space after ="),
              (3, "option pair needs spaces around = and there was no space after =")] ∧
          ∃ verdicts,
            List.Forall₂ (Check.Spacing.EntryVerdict sampleEntries.toList "option" true)
              (source.entriesOf fun block => block.word = .options) verdicts ∧
            diagnostics = verdicts.flatten.map fun remark =>
              ⟨fileLabel (some "t.g"), remark.line, remark.message,
                "OptionsSpaceCheck", .error⟩) ∧
      (let config : CheckConfig :=
          { name := "TokensSpaceCheck", options := [(spacedOption, .bool false)] }
        let diagnostics := ((setupAll {} Reachable.sampleFiles [config]).walker.process
          Reachable.sampleFiles "t.g" (some sampleEntries)).2.2.diagnostics
        diagnostics.map (fun diagnostic => (diagnostic.line, diagnostic.message)) =
            [(2, "token pair should not have spaces around = and space found after =")] ∧
          ∃ verdicts,
            List.Forall₂ (Check.Spacing.EntryVerdict sampleEntries.toList "token" false)
              (source.entriesOf fun block => block.word = .tokens) verdicts ∧
            diagnostics = verdicts.flatten.map fun remark =>
              ⟨fileLabel (some "t.g"), remark.line, remark.message,
                "TokensSpaceCheck", .error⟩) := by
  obtain ⟨source, hparse⟩ := exists_sampleEntries
  refine ⟨source, hparse, ⟨by decide +kernel, ?_⟩, ⟨by decide +kernel, ?_⟩⟩
  · have haccepted :
        (setupAll {} Reachable.sampleFiles [{ name := "OptionsSpaceCheck" }]).result =
          .ok [.optionsSpacing] := rfl
    exact process_spacing (by simp) haccepted rfl hparse Reachable.sampleFiles
  · have haccepted : (setupAll {} Reachable.sampleFiles
        [{ name := "TokensSpaceCheck", options := [(spacedOption, .bool false)] }]).result =
          .ok [.tokensSpacing] := rfl
    exact process_spacing (by simp) haccepted rfl hparse Reachable.sampleFiles

theorem flatMap_entries {word : Keyword} {judge : Node → List Remark}
    {verdict : Entry → List Remark} {entries : List Entry} {nodes : List Node}
    (hjudge : ∀ entry node, EntryOf word entry node → judge node = verdict entry)
    (h : List.Forall₂ (EntryOf word) entries nodes) :
    nodes.flatMap judge = entries.flatMap verdict := by
  induction h with
  | nil => rfl
  | cons hfirst _ ih => rw [List.flatMap_cons, List.flatMap_cons, hjudge _ _ hfirst, ih]

/-- The checks of indentation judge every entry of their blocks once, in the order of the
text, by the places of its tokens.  Options in subrules are not judged. -/
theorem process_indentation (hparse : Source.parse text (some file) = .ok source)
    (files : FileSystem) :
    ((setupAll {} fs [config]).result = .ok [.optionsIndentation] →
      ((setupAll {} fs [config]).walker.process files file (some text)).2.2.diagnostics =
        ((source.entriesOf fun block => block.word = .options ∧ block.depth = 0).flatMap
          (Check.Indentation.verdict "option pair" "an")).map fun remark =>
            ⟨fileLabel (some file), remark.line, remark.message,
              Convention.optionsIndentation.name, config.severity⟩) ∧
    ((setupAll {} fs [config]).result = .ok [.tokensIndentation] →
      ((setupAll {} fs [config]).walker.process files file (some text)).2.2.diagnostics =
        ((source.entriesOf fun block => block.word = .tokens).flatMap
          (Check.Indentation.verdict "token pair" "a")).map fun remark =>
            ⟨fileLabel (some file), remark.line, remark.message,
              Convention.tokensIndentation.name, config.severity⟩) := by
  refine ⟨fun haccepted => ?_, fun haccepted => ?_⟩
  · obtain ⟨settings, -, hdiagnostics⟩ := process_convention haccepted hparse files
    obtain ⟨nodes, hentries, hsaid⟩ := Source.exists_entries hparse (by decide)
      (fun block hselected => (of_decide_eq_true hselected).1)
      (fun block listing => Check.Indentation.takes_options)
      (fun listing htaken => by simp_all [Check.Indentation.takes])
      fun site hsite => Check.Indentation.enter_eq Check.Indentation.options
        Check.Indentation.judgeOption hsite
    rw [hdiagnostics, ← flatMap_entries (fun _ _ => Check.Indentation.judgeOption_eq) hentries,
      ← hsaid]
    rfl
  · obtain ⟨settings, -, hdiagnostics⟩ := process_convention haccepted hparse files
    obtain ⟨nodes, hentries, hsaid⟩ := Source.exists_entries hparse (by decide)
      (fun block => of_decide_eq_true)
      (fun block listing => Check.Indentation.takes_tokens)
      (fun listing htaken => by simp_all [Check.Indentation.takes])
      fun site hsite => Check.Indentation.enter_eq Check.Indentation.tokens
        Check.Indentation.judgeToken hsite
    rw [hdiagnostics, ← flatMap_entries (fun _ _ => Check.Indentation.judgeToken_eq) hentries,
      ← hsaid]
    rfl

theorem process_indentation_sample :
    ∃ source, Source.parse sampleEntries (some "t.g") = .ok source ∧
      (let config : CheckConfig := { name := "OptionsIndentationCheck" }
        let diagnostics := ((setupAll {} Reachable.sampleFiles [config]).walker.process
          Reachable.sampleFiles "t.g" (some sampleEntries)).2.2.diagnostics
        diagnostics.map (·.line) = [1, 1, 1, 2] ∧
          diagnostics =
            ((source.entriesOf fun block => block.word = .options ∧ block.depth = 0).flatMap
              (Check.Indentation.verdict "option pair" "an")).map fun remark =>
                ⟨fileLabel (some "t.g"), remark.line, remark.message,
                  "OptionsIndentationCheck", .error⟩) ∧
      (let config : CheckConfig := { name := "TokensIndentationCheck" }
        let diagnostics := ((setupAll {} Reachable.sampleFiles [config]).walker.process
          Reachable.sampleFiles "t.g" (some sampleEntries)).2.2.diagnostics
        diagnostics.map (·.line) = [2] ∧
          diagnostics = ((source.entriesOf fun block => block.word = .tokens).flatMap
            (Check.Indentation.verdict "token pair" "a")).map fun remark =>
              ⟨fileLabel (some "t.g"), remark.line, remark.message,
                "TokensIndentationCheck", .error⟩) := by
  obtain ⟨source, hparse⟩ := exists_sampleEntries
  refine ⟨source, hparse, ⟨by decide +kernel, ?_⟩, ⟨by decide +kernel, ?_⟩⟩
  · exact (process_indentation hparse Reachable.sampleFiles).1 rfl
  · exact (process_indentation hparse Reachable.sampleFiles).2 rfl

end Walker

end GrammarLint
