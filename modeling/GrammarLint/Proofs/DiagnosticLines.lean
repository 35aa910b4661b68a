import GrammarLint.Proofs.BreakStyle
import GrammarLint.Proofs.NodeLines

/-!
# Lines of diagnostics

What a check says of a file stands on a line of that file: of a node, or in the code of the
license section.  The one exception is a notice that ends too early.  What is missing from
it is reported on the line after its last, and the text may end before that line.
-/

namespace GrammarLint

open Text Files

/-! ## Lines of a text -/

theorem Text.length_linesFrom_le (line chars : List Char) :
    (linesFrom line chars).length ≤ chars.count '\n' + 1 := by
  fun_induction linesFrom line chars <;> grind

theorem Text.length_dropLastWhile_le {α : Type} (p : α → Bool) (items : List α) :
    (dropLastWhile p items).length ≤ items.length := by
  rw [dropLastWhile, List.length_reverse]
  exact (List.dropWhile_sublist p).length_le.trans_eq List.length_reverse

theorem Check.Header.length_contentLines_le (text : String) :
    (contentLines text).length ≤ lastLine text := by
  refine (length_dropLastWhile_le _ _).trans ?_
  rw [lines, List.length_map]
  exact length_linesFrom_le [] text.toList

/-! ## Remarks on lines -/

/-- Every remark is on the line of a node at or below the one that it was made of. -/
def OnNodes (node : Node) (remarks : List Remark) : Prop :=
  ∀ remark ∈ remarks, ∃ below ∈ node.preorder, remark.line = below.line

section OnNodes

variable {node : Node}

theorem OnNodes.append {first second : List Remark} (hfirst : OnNodes node first)
    (hsecond : OnNodes node second) : OnNodes node (first ++ second) :=
  List.forall_mem_append.2 ⟨hfirst, hsecond⟩

theorem onNodes_singleton {below : Node} (h : below ∈ node.preorder) (message : String) :
    OnNodes node [⟨below.line, message⟩] := by
  simpa [OnNodes] using ⟨below, h, rfl⟩

theorem onNodes_remarkIf {below : Node} (h : below ∈ node.preorder) (condition : Bool)
    (message : String) : OnNodes node (remarkIf condition below.line message) := by
  unfold remarkIf
  split
  · exact onNodes_singleton h message
  · exact List.forall_mem_nil _

theorem onNodes_flatMap {judge : Node → List Remark} (h : ∀ entry, OnNodes entry (judge entry)) :
    OnNodes node (node.children.flatMap judge) := by
  intro remark hremark
  obtain ⟨entry, hentry, hremark⟩ := List.mem_flatMap.1 hremark
  obtain ⟨below, hbelow, hline⟩ := h entry remark hremark
  exact ⟨below, Node.mem_preorder_of_child hentry hbelow, hline⟩

theorem mem_of_sides? {left right : Node} (h : node.sides? = some (left, right)) :
    left ∈ node.preorder ∧ right ∈ node.preorder := by
  have hchildren : node.children = [left, right] := by
    unfold Node.sides? at h
    split at h
    · cases h
      assumption
    · cases h
  constructor
  · exact Node.child_mem_preorder (by simp [hchildren])
  · exact Node.child_mem_preorder (by simp [hchildren])

end OnNodes

namespace Check

theorem Indentation.onNodes_judgePair {node sign left right : Node} (block : Block)
    (hsign : sign ∈ node.preorder) (hsides : left ∈ node.preorder ∧ right ∈ node.preorder) :
    OnNodes node (judgePair block sign left right) :=
  ((onNodes_remarkIf hsides.1 _ _).append (onNodes_remarkIf hsign _ _)).append
    (onNodes_remarkIf hsides.2 _ _)

theorem Indentation.onNodes_judgeOption (entry : Node) : OnNodes entry (judgeOption entry) := by
  unfold judgeOption
  split
  case h_1 hsides => exact onNodes_judgePair _ entry.self_mem_preorder (mem_of_sides? hsides)
  case h_2 => exact List.forall_mem_nil _

theorem Indentation.onNodes_judgeToken (entry : Node) : OnNodes entry (judgeToken entry) := by
  unfold judgeToken
  split
  case h_1 hsides => exact onNodes_judgePair _ entry.self_mem_preorder (mem_of_sides? hsides)
  case h_2 => exact onNodes_remarkIf entry.self_mem_preorder _ _

theorem Indentation.onNodes_enter {judge : Node → List Remark}
    (h : ∀ entry, OnNodes entry (judge entry)) (block : Block) (site : Site) :
    OnNodes site.node (enter block judge site) := by
  unfold enter
  split
  · split
    · exact onNodes_flatMap h
    · exact List.forall_mem_nil _
  · exact List.forall_mem_nil _

theorem Spacing.onNodes_judgeGap {node right : Node} (hright : right ∈ node.preorder)
    (pairType : String) (spaced : Bool) (side : Side) (left : Node) :
    OnNodes node (judgeGap pairType spaced side left right) := by
  unfold judgeGap
  split
  · exact List.forall_mem_nil _
  · split
    all_goals exact onNodes_remarkIf hright _ _

theorem Spacing.onNodes_judgeEntry (pairType : String) (spaced : Bool) (entry : Node) :
    OnNodes entry (judgeEntry pairType spaced entry) := by
  unfold judgeEntry
  split
  case h_1 hsides =>
      exact (onNodes_judgeGap entry.self_mem_preorder _ _ _ _).append
        (onNodes_judgeGap (mem_of_sides? hsides).2 _ _ _ _)
  case h_2 => exact List.forall_mem_nil _

theorem TokenOrder.judgeStep_line (reported : Reported) (previous entry : Entry) :
    ∀ remark ∈ (judgeStep reported previous entry).2, remark.line = entry.line := by
  unfold judgeStep
  split
  all_goals
    try split
    all_goals simp

theorem TokenOrder.judgeFrom_line (reported : Reported) (previous : Entry)
    (entries : List Entry) : ∀ remark ∈ judgeFrom reported previous entries,
      ∃ entry ∈ entries, remark.line = entry.line := by
  induction entries generalizing reported previous with
  | nil => simp [judgeFrom]
  | cons entry entries ih =>
      rw [judgeFrom, List.forall_mem_append]
      constructor
      · exact fun remark hremark =>
          ⟨entry, List.mem_cons_self, judgeStep_line reported previous entry remark hremark⟩
      · intro remark hremark
        obtain ⟨later, hlater, hline⟩ := ih _ entry remark hremark
        exact ⟨later, List.mem_cons_of_mem _ hlater, hline⟩

theorem TokenOrder.ofNode_line (node : Node) :
    ∃ below ∈ node.preorder, (Entry.ofNode node).line = below.line := by
  unfold Entry.ofNode
  split
  case h_1 hsides => exact ⟨_, (mem_of_sides? hsides).1, rfl⟩
  case h_2 => exact ⟨node, node.self_mem_preorder, rfl⟩

theorem TokenOrder.onNodes_enter (block : Node) : OnNodes block (enter block) := by
  intro remark hremark
  have hentry : ∃ entry ∈ block.children.map Entry.ofNode, remark.line = entry.line := by
    unfold enter judge at hremark
    split at hremark
    · cases hremark
    · rename_i first entries heq
      obtain ⟨entry, hentry, hline⟩ := judgeFrom_line _ _ _ remark hremark
      exact ⟨entry, heq ▸ List.mem_cons_of_mem _ hentry, hline⟩
  obtain ⟨entry, hentry, hline⟩ := hentry
  obtain ⟨child, hchild, rfl⟩ := List.mem_map.1 hentry
  obtain ⟨below, hbelow, hsame⟩ := ofNode_line child
  exact ⟨below, Node.mem_preorder_of_child hchild hbelow, hline.trans hsame⟩

theorem Delimiters.onNodes_judge {node delimiter : Node} (h : delimiter ∈ node.preorder)
    (source : Option Source) (symbol : String) :
    OnNodes node (judge source symbol delimiter).remarks := by
  unfold judge
  dsimp only
  split
  · exact List.forall_mem_nil _
  · exact List.forall_mem_nil _
  · split
    · exact onNodes_singleton h _
    · exact onNodes_remarkIf h _ _

theorem Delimiters.onNodes_judgeIfPresent (source : Option Source) (symbol : String)
    (rule : Node) (kind : Kind) :
    OnNodes rule (judgeIfPresent source symbol (rule.firstOfKind? kind)).remarks := by
  unfold judgeIfPresent
  split
  case h_1 heq =>
      exact onNodes_judge (Node.child_mem_preorder (List.mem_of_find?_eq_some heq)) _ _
  case h_2 => exact List.forall_mem_nil _

theorem Delimiters.onNodes_enter (source : Option Source) (rule : Node) :
    OnNodes rule (enter source rule).remarks := by
  unfold enter Reaction.followedBy
  split
  · exact onNodes_judgeIfPresent source _ rule _
  · exact (onNodes_judgeIfPresent source _ rule _).append (onNodes_judgeIfPresent source _ rule _)

end Check

theorem Convention.onNodes_enter {convention : Convention} (h : convention ≠ .header)
    (settings : Settings) (source : Option Source) (site : Site) :
    OnNodes site.node (convention.enter settings source site).remarks := by
  cases convention with
  | header => exact absurd rfl h
  | optionsIndentation =>
      exact Check.Indentation.onNodes_enter Check.Indentation.onNodes_judgeOption _ site
  | tokensIndentation =>
      exact Check.Indentation.onNodes_enter Check.Indentation.onNodes_judgeToken _ site
  | optionsSpacing | tokensSpacing =>
      exact onNodes_flatMap (Check.Spacing.onNodes_judgeEntry _ _)
  | delimiters => exact Check.Delimiters.onNodes_enter source site.node
  | tokenNames =>
      exact onNodes_flatMap fun entry => onNodes_remarkIf entry.self_mem_preorder _ _
  | tokenOrder => exact Check.TokenOrder.onNodes_enter site.node

/-! ## The license section -/

namespace Check.Header

/-- What is said of a section: that it has no notice, that one of its lines differs from
the notice, or that it ends where the notice goes on. -/
inductive Says (part : Node) : Remark → Prop where
  | missing (message : String) : Says part ⟨part.line, message⟩
  | differs {name action : Node} {place : Nat} (expected found : String)
      (hparts : nameAndAction? part = some (name, action)) (hname : name.text = sectionName)
      (hplace : place < (contentLines action.text).length) :
      Says part ⟨action.line + place, mismatch expected found⟩
  | ended {name action : Node} (expected : String)
      (hparts : nameAndAction? part = some (name, action)) (hname : name.text = sectionName) :
      Says part ⟨action.line + (contentLines action.text).length, mismatch expected ""⟩

theorem says_compareFrom {part name action : Node}
    (hparts : nameAndAction? part = some (name, action)) (hname : name.text = sectionName)
    {index : Nat} (hindex : index ≤ (contentLines action.text).length) (notice : List String) :
    ∀ remark ∈ compareFrom action.line (contentLines action.text) index notice,
      Says part remark := by
  induction notice generalizing index with
  | nil => simp [compareFrom]
  | cons expected notice ih =>
      unfold compareFrom
      dsimp only
      split
      case isTrue hfound => exact ih (List.getElem?_eq_some_iff.1 hfound).1
      case isFalse =>
          rw [List.forall_mem_singleton]
          rcases Nat.lt_or_eq_of_le hindex with hless | rfl
          · exact .differs expected _ hparts hname hless
          · simpa using Says.ended expected hparts hname

theorem says_enter (notice : List String) (site : Site) :
    ∀ remark ∈ enter notice site, Says site.node remark := by
  unfold enter
  split
  case h_2 => exact List.forall_mem_nil _
  case h_1 parent name action _ hparts =>
      split
      case isFalse => exact List.forall_mem_nil _
      case isTrue hsection =>
          have hname : name.text = sectionName := by simp_all
          unfold judge
          dsimp only
          split
          · exact List.forall_mem_singleton.2 (.missing _)
          · exact says_compareFrom hparts hname (by omega) notice

end Check.Header

/-! ## Lines of files -/

/-- The code of a license section ends where the notice goes on, and the diagnostic is on
the line after it. -/
def Truncated (source : Source) (diagnostic : Diagnostic) : Prop :=
  diagnostic.check = Convention.header.name ∧
    ∃ part ∈ source.root.preorder, ∃ name action expected,
      Check.Header.nameAndAction? part = some (name, action) ∧
      name.text = Check.Header.sectionName ∧
      diagnostic.line = action.line + (Check.Header.contentLines action.text).length ∧
      diagnostic.message = Check.Header.mismatch expected ""

section Parsed

variable {file text : String} {source : Source}

theorem Source.action_onLines {path : Option String} (h : Source.parse text path = .ok source)
    {part name action : Node} (hpart : part ∈ source.root.preorder) (hkind : part.kind = .ampersand)
    (hparts : Check.Header.nameAndAction? part = some (name, action)) :
    1 ≤ action.line ∧
      action.line + (Check.Header.contentLines action.text).length ≤ lastLine text + 1 := by
  have hroot : Shape.Root source.root := Source.holds_root Shape.inductive_ofRule h
  have hplain : Shape.Plain part := by
    rcases hroot.rule_or_plain hpart with ⟨-, hrule⟩ | hplain
    · cases hkind.symm.trans hrule.1
    · exact hplain
  obtain ⟨own, code, hsame, hcode, hchild⟩ := (hplain.named hkind).nameAndAction?_eq
  cases hsame.symm.trans hparts
  have hbelow := source.root.preorder_subset hpart (Node.child_mem_preorder hchild)
  obtain ⟨hpositive, -, hlast⟩ := Source.onLines h action hbelow
  have hlines := hlast (List.mem_singleton.1 hcode.1)
  have hcontent := Check.Header.length_contentLines_le action.text
  omega

namespace Walker

variable {walker : Walker}

theorem Reliable.mem_process (h : Reliable walker) (files : FileSystem)
    (hparse : Source.parse text (some file) = .ok source) {diagnostic : Diagnostic}
    (hmember : diagnostic ∈ (walker.process files file (some text)).2.2.diagnostics) :
    ∃ (convention : Convention) (settings : Settings) (site : Site),
      site.node ∈ source.root.preorder ∧ site.node.kind ∈ convention.kinds ∧
        diagnostic.check = convention.name ∧
        ({ line := diagnostic.line, message := diagnostic.message } : Remark) ∈
          (convention.enter settings (some source) site).remarks := by
  obtain ⟨fs, configs, hstaffed⟩ := h.staffed
  rw [h.process_diagnostics files hparse, hstaffed.flatMap_logged] at hmember
  obtain ⟨call, hcall, hlogged⟩ := List.mem_flatMap.1 hmember
  obtain ⟨site, hsite, hcall⟩ := List.mem_flatMap.1 hcall
  obtain ⟨check, hcheck, rfl⟩ := List.mem_map.1 hcall
  obtain ⟨convention, settings, hemployed, hkind⟩ := hstaffed.subscribers _ _ hcheck
  have hnode : site.node ∈ source.root.preorder := by
    rw [← Node.map_node_sites source.root []]
    exact List.mem_map_of_mem hsite
  refine ⟨convention, settings, site, hnode, hkind, ?_⟩
  unfold logged at hlogged
  split at hlogged
  · rw [hemployed.respond_enter] at hlogged
    obtain ⟨remark, hremark, rfl⟩ := List.mem_map.1 hlogged
    obtain ⟨config, -, identity, -, -, rfl⟩ := hemployed
    exact ⟨rfl, hremark⟩
  · cases hlogged

/-- A diagnostic of a file that is parsed is on a line of its text, but for a notice that
is missed where the text ends in the line of the section: that one is on the line after
the last. -/
theorem process_lines (collector : Collector) (fs files : FileSystem)
    (configs : List CheckConfig) (hparse : Source.parse text (some file) = .ok source) :
    ∀ diagnostic ∈ ((setupAll { collector } fs configs).walker.process files file
        (some text)).2.2.diagnostics,
      1 ≤ diagnostic.line ∧
        (diagnostic.line ≤ lastLine text ∨
          diagnostic.line = lastLine text + 1 ∧ Truncated source diagnostic) := by
  intro diagnostic hmember
  obtain ⟨convention, settings, site, hnode, hkind, hname, hremark⟩ :=
    (reliable_setupAll collector fs configs).mem_process files hparse hmember
  by_cases hheader : convention = .header
  · subst hheader
    have hkind : site.node.kind = .ampersand := List.mem_singleton.1 hkind
    have hsays := Check.Header.says_enter settings.notice site _ hremark
    generalize hline : diagnostic.line = line at hsays ⊢
    generalize hmessage : diagnostic.message = message at hsays
    cases hsays with
    | missing =>
        obtain ⟨hpositive, hlast, -⟩ := Source.onLines hparse site.node hnode
        exact ⟨hpositive, .inl hlast⟩
    | differs expected found hparts _ hplace =>
        have hlines := Source.action_onLines hparse hnode hkind hparts
        omega
    | ended expected hparts hsection =>
        obtain ⟨hpositive, hlast⟩ := Source.action_onLines hparse hnode hkind hparts
        refine ⟨by omega, ?_⟩
        rcases Int.lt_or_eq_of_le hlast with hless | heq
        · exact .inl (by omega)
        · exact .inr ⟨heq, hname, site.node, hnode, _, _, expected, hparts, hsection, hline,
            hmessage⟩
  · obtain ⟨below, hbelow, (hline : diagnostic.line = below.line)⟩ :=
      convention.onNodes_enter hheader settings (some source) site _ hremark
    obtain ⟨hpositive, hlast, -⟩ :=
      Source.onLines hparse below (source.root.preorder_subset hnode hbelow)
    exact ⟨hline ▸ hpositive, .inl (hline ▸ hlast)⟩

end Walker

end Parsed

def Truncated.sampleFiles : FileSystem :=
  { current := ["work"]
    entries :=
      [(["work", "h.txt"], .file ("abc\ndef\n".toList.flatMap fun c => [c.toNat.toUInt8]))] }

def Truncated.sampleConfig : CheckConfig :=
  { name := "HeaderCheck", options := [(headerOption, .string "h.txt")] }

/-- The section has the first line of the notice only, and ends in the second of the text. -/
def Truncated.sampleText : String :=
  "grammar t;\n@header\x7babc\x7d a: B;"

theorem Walker.process_lines_sample :
    ∃ source, Source.parse Truncated.sampleText (some "t.g") = .ok source ∧
      let configs := [Truncated.sampleConfig, { name := "RuleColonSemicolonCheck" }]
      let diagnostics := ((setupAll {} Truncated.sampleFiles configs).walker.process
        Truncated.sampleFiles "t.g" (some Truncated.sampleText)).2.2.diagnostics
      diagnostics.map (·.line) = [3, 2, 2] ∧
        ∀ diagnostic ∈ diagnostics, 1 ≤ diagnostic.line ∧
          (diagnostic.line ≤ 2 ∨ diagnostic.line = 3 ∧ Truncated source diagnostic) := by
  have hsome : (Source.parse Truncated.sampleText (some "t.g")).toOption.isSome = true := by
    decide +kernel
  obtain ⟨source, hsource⟩ := Source.exists_of_isSome hsome
  exact ⟨source, hsource, by decide +kernel,
    Walker.process_lines {} Truncated.sampleFiles Truncated.sampleFiles _ hsource⟩

/-- A text of one line, with a diagnostic on the second. -/
theorem Walker.process_lines_beyond :
    let done := setupAll {} Truncated.sampleFiles [Truncated.sampleConfig]
    let text := "grammar t; @header\x7babc\x7d a: B;"
    done.result.toOption = some [.header] ∧
      (Source.parse text (some "t.g")).toOption.isSome = true ∧
      ∃ diagnostic ∈ (done.walker.process Truncated.sampleFiles "t.g"
        (some text)).2.2.diagnostics, ¬diagnostic.line ≤ lastLine text := by
  refine ⟨?_, ?_, ?_⟩
  all_goals decide +kernel

end GrammarLint
