import GrammarLint.Proofs.Branches

/-!
# Reading grammars

A grammar that is written by the conventions is read, as the tree it stands for.
-/

namespace GrammarLint

open Grammar Text

namespace Layout

/-! ## Sections -/

section Sections

variable {α : Type} {before rest : List Char}

theorem sinceBreak_joinLines (h : Position.sinceBreak before = 0) (lines : List (List Char)) :
    Position.sinceBreak (before ++ joinLines lines) = 0 := by
  induction lines generalizing before with
  | nil => simpa [joinLines] using h
  | cons line lines ih =>
      rw [joinLines_cons, ← List.append_assoc, List.append_cons]
      exact ih (Position.sinceBreak_break List.not_mem_nil)

theorem solid_keyword (word : Keyword) : Solid (word.text.toList ++ rest) :=
  Name.solid ⟨word.text.toList, word.isName_text⟩ rest

theorem solid_block (word : Keyword) (print : α → List Char) (as : List α) (h : Solid rest) :
    Solid (joinLines (blockLines word.text (as.map print)) ++ rest) := by
  cases as with
  | nil => simpa [blockLines, joinLines] using h
  | cons a as =>
      rw [joinLines_blockLines, List.append_assoc]
      exact solid_keyword word

end Sections

def rulesText (rules : List RuleLayout) : List Char :=
  joinLines (rules.map ruleText)

theorem joinLines_rules (rules : List RuleLayout) :
    joinLines (rules.flatMap ruleLines) = rulesText rules := by
  induction rules with
  | nil => rfl
  | cons rule rules ih =>
      rw [List.flatMap_cons, joinLines_append, joinLines_ruleLines, ih]
      simp [rulesText, joinLines_cons]

theorem ruleText_eq (rule : RuleLayout) (rest : List Char) :
    ∃ more, ruleText rule ++ rest = rule.name.chars ++ (lineStart ++ ':' :: more) := by
  simp [ruleText, branchText]

theorem endsRule_rule (rule : RuleLayout) (rest : List Char) :
    EndsRule (ruleText rule ++ rest) := by
  obtain ⟨more, hmore⟩ := ruleText_eq rule rest
  rw [hmore]
  exact ⟨rule.name.solid _, .inr (refuses_exceptionGroup rule.name more)⟩

theorem rules_start (rules : List RuleLayout) :
    Solid (rulesText rules) ∧
      (rulesText rules = [] ∨ Refuses (.rule .prequel) (rulesText rules)) := by
  cases rules with
  | nil => exact ⟨by simp [rulesText, joinLines, Solid, Stops], .inl rfl⟩
  | cons rule rules =>
      rw [rulesText, List.map_cons, joinLines_cons]
      obtain ⟨more, hmore⟩ := ruleText_eq rule ('\n' :: joinLines (rules.map ruleText))
      rw [hmore]
      exact ⟨rule.name.solid _, .inr (refuses_prequel rule.name more)⟩

theorem readsAll_rules (rules : List RuleLayout) {before : List Char} (index : Nat)
    (hcolumn : Position.sinceBreak before = 0) :
    ∃ (tokens : List Token) (nodes : List Node), ReadsAll (.rule .ruleSpec)
      ⟨before, rulesText rules, index⟩ ⟨before ++ rulesText rules, [], index + tokens.length⟩ tokens
      (nodes.map .node) ∧
      nodes.map Node.bare = rules.map ruleNode ∧
      ∀ node ∈ nodes, ∃ own ⊆ tokens, TidyRule own node := by
  cases rules with
  | nil =>
      refine ⟨[], [], ?_, rfl, by simp⟩
      exact (ReadsAll.nil _).cast rfl (by simp [rulesText, joinLines])
  | cons rule rules =>
      obtain ⟨tokens, nodes, hall, hbares, htidy⟩ := @readsAll_lines _ _ [] _ _ _ _ reads_rule
        endsRule_rule rfl List.not_mem_nil rule rules before [] index hcolumn
        ⟨by simp [Solid, Stops], .inl rfl⟩
      refine ⟨tokens, nodes, hall.cast ?_ ?_, hbares, htidy⟩
      · simp [rulesText, joinLines_cons]
      · simp [rulesText, joinLines_cons]

/-! ## The head -/

theorem refuses_grammarType (rest : List Char) (hstops : Stops isWord rest) :
    Refuses (.rule .grammarType) (Keyword.grammar.text.toList ++ rest) := by
  have hword (word : Keyword) (hne : Keyword.grammar.text.toList ≠ word.text.toList) :
      Refuses word.expr (Keyword.grammar.text.toList ++ rest) :=
    refuses_keyword Keyword.grammar.isName_text hne hstops
  exact .rule (.seq ((hword .lexer (by decide)).choice
    ((hword .parser (by decide)).choice (hword .tree (by decide)))))

def headText (name : Name) : List Char :=
  Keyword.grammar.text.toList ++ ([' '] ++ (name.chars ++ [';', '\n']))

def headNode (name : Name) : Node :=
  { kind := .combinedGrammar, text := "grammar", children := [{ kind := .id, text := name.text }] }

theorem sinceBreak_headText (name : Name) : Position.sinceBreak (headText name) = 0 := by
  have htext : headText name =
      Keyword.grammar.text.toList ++ [' '] ++ name.chars ++ [';'] ++ '\n' :: [] := by
    simp [headText]
  rw [htext, Position.sinceBreak_break List.not_mem_nil]
  rfl

theorem reads_head (name : Name) {rest : List Char} (hsolid : Solid rest) :
    ∃ tokens node, Reads (.rule .grammarHead) ⟨[], headText name ++ rest, 0⟩
      ⟨headText name, rest, tokens.length⟩ tokens [.node node] ∧
      node.bare = headNode name := by
  have hbody : Reads Rule.grammarHead.body
      ⟨[], Keyword.grammar.text.toList ++ ([' '] ++ (name.chars ++ ([] ++ ([';'] ++
        (['\n'] ++ rest))))), 0⟩ _ _ _ :=
    .skip_then (refuses_grammarType _ (stops_cons.2 (by decide)))
      (.lexeme_gap (lexes_keyword .grammar (stops_cons.2 (by decide))) rfl (name.solid _)
        (.lexeme_gap (lexes_identifier name.valid (stops_cons.2 rfl)) rfl (stops_cons.2 rfl)
          (.lexeme_last (lexes_mark .semicolon _) rfl hsolid)))
  exact ⟨_, _, (hbody.rule rfl rfl).cast (by simp [headText]) (by simp [headText]), rfl⟩

/-! ## Grammars -/

theorem toList_text (layout : Layout) :
    layout.text.toList = headText layout.name ++
      (joinLines (blockLines Keyword.options.text (layout.options.map optionEntry)) ++
        (joinLines (blockLines Keyword.tokens.text
          (layout.pairs.map pairEntry ++ layout.imaginary.map imaginaryEntry)) ++
          rulesText layout.rules)) := by
  have hword : "grammar ".toList = Keyword.grammar.text.toList ++ [' '] := rfl
  have hmark : ";".toList = [';'] := rfl
  have hoptions : "options" = Keyword.options.text := rfl
  have htokens : "tokens" = Keyword.tokens.text := rfl
  rw [text, String.toList_ofList, lines, List.cons_append, List.cons_append, joinLines_cons,
    joinLines_append, joinLines_append, joinLines_rules, hword, hmark, hoptions, htokens]
  simp [headText]

def entries (layout : Layout) : List ((Name × Literal) ⊕ Name) :=
  layout.pairs.map .inl ++ layout.imaginary.map .inr

def entryText : (Name × Literal) ⊕ Name → List Char :=
  Sum.elim pairEntry imaginaryEntry

def entryNode : (Name × Literal) ⊕ Name → Node :=
  Sum.elim pairNode imaginaryNode

theorem reads_entry (entry : (Name × Literal) ⊕ Name) :
    ReadsEntry (.rule .tokenSpec) indent Solid (fun _ => TidyEntry) (entryText entry)
      (entryNode entry) := by
  cases entry with
  | inl pair => exact reads_pair pair
  | inr name => exact reads_imaginary name

theorem solid_option (entry : Name × Name) (rest : List Char) :
    Solid (optionEntry entry ++ rest) := by
  simp only [optionEntry, List.append_assoc]
  exact entry.1.solid _

theorem solid_entry (entry : (Name × Literal) ⊕ Name) (rest : List Char) :
    Solid (entryText entry ++ rest) := by
  cases entry with
  | inl pair =>
      simp only [entryText, Sum.elim_inl, pairEntry, List.append_assoc]
      exact pair.1.solid _
  | inr name =>
      simp only [entryText, Sum.elim_inr, imaginaryEntry, List.append_assoc]
      exact name.solid _

structure TidyRoot (layout : Layout) (source : Source) : Prop where
  blocks : ∀ child ∈ source.root.children, child.kind = .options ∨ child.kind = .tokens →
    ∀ entry ∈ child.children, TidyEntry entry
  tokens : ∀ child ∈ source.root.children, child.kind = .tokens →
    child.children.map Node.bare = layout.entries.map entryNode
  rules : ∀ child ∈ source.root.children, child.kind = .rule →
    TidyRule source.tokens.toList child

theorem TidyRule.mono {tokens more : List Token} {node : Node} (h : TidyRule tokens node)
    (hmore : tokens ⊆ more) : TidyRule more node := by
  have hdelimiter {delimiter : Node} (h : TidyDelimiter tokens delimiter) :
      TidyDelimiter more delimiter := by
    obtain ⟨hcolumn, token, htoken, hfirst⟩ := h
    exact ⟨hcolumn, token, hmore htoken, hfirst⟩
  obtain ⟨block, closing, hblock, hclosing, htidy, htidy'⟩ := h
  exact ⟨block, closing, hblock, hclosing, hdelimiter htidy, hdelimiter htidy'⟩

theorem kind_of_bares {nodes expected : List Node} (h : nodes.map Node.bare = expected)
    {kind : Kind} (hkind : ∀ node ∈ expected, node.kind = kind) :
    ∀ node ∈ nodes, node.kind = kind := by
  intro node hnode
  rw [← node.bare_kind]
  exact hkind _ (h ▸ List.mem_map_of_mem hnode)

theorem kind_of_mem_blockNodes {kind : Kind} {word : String} {entries : List Node} :
    ∀ node ∈ blockNodes kind word entries, node.kind = kind := by
  intro node hnode
  unfold blockNodes at hnode
  split at hnode <;> simp_all

theorem children_of_mem_blockNodes {kind : Kind} {word : String} {entries : List Node} {node : Node}
    (h : node ∈ blockNodes kind word entries) : node.children = entries := by
  unfold blockNodes at h
  split at h <;> simp_all

/-- The nodes of the parts of a grammar, as its text gives them. -/
structure Parts (layout : Layout) (source : Source) where
  head : Node
  options : List Node
  blocks : List Node
  rules : List Node
  root_eq : source.root = head.addChildren (options ++ blocks ++ rules)
  head_bare : head.bare = headNode layout.name
  options_bare : options.map Node.bare =
    blockNodes .options "options" (layout.options.map optionNode)
  options_tidy : ∀ node ∈ options, ∀ child ∈ node.children, TidyEntry child
  blocks_bare : blocks.map Node.bare = blockNodes .tokens "tokens" (layout.entries.map entryNode)
  blocks_tidy : ∀ node ∈ blocks, ∀ child ∈ node.children, TidyEntry child
  rules_bare : rules.map Node.bare = layout.rules.map ruleNode
  rules_tidy : ∀ node ∈ rules, TidyRule source.tokens.toList node

theorem parse_text (layout : Layout) (file : Option String) :
    ∃ source, Source.parse layout.text file = .ok source ∧ Nonempty (Parts layout source) := by
  obtain ⟨hsolid, hstop⟩ := rules_start layout.rules
  have hsolidTokens := solid_block .tokens entryText layout.entries hsolid
  have hsolidOptions := solid_block .options optionEntry layout.options hsolidTokens
  obtain ⟨first, head, hhead, hheadBare⟩ := reads_head layout.name hsolidOptions
  obtain ⟨second, options, hoptions, hoptionsBare, hoptionsTidy⟩ := @readsAll_block _ _ _ _ _ _ _
    blockRule_options reads_option solid_option layout.options (headText layout.name) _ first.length
    hsolidTokens
  obtain ⟨third, blocks, hblocks, hblocksBare, hblocksTidy⟩ := @readsAll_block _ _ _ _ _ _ _
    blockRule_tokens reads_entry solid_entry layout.entries (headText layout.name ++ _) _
    (first.length + second.length) hsolid
  obtain ⟨fourth, rules, hrules, hrulesBare, hrulesTidy⟩ := @readsAll_rules layout.rules
    (headText layout.name ++ _ ++ _) (first.length + second.length + third.length)
    (sinceBreak_joinLines (sinceBreak_joinLines (sinceBreak_headText _) _) _)
  have hbody : Reads Rule.grammarFile.body ⟨[], [] ++ (headText layout.name ++ _), 0⟩ _ _ _ :=
    .seq (.gap rfl (solid_keyword .grammar)) (.seq hhead
      (.seq ((hoptions.append hblocks).many hstop) (hrules.many (.inl rfl))))
  let root := head.addChildren (options ++ blocks ++ rules)
  have hassemble : assemble .grammarFile ([] ++ ([.node head] ++
      ((options.map Item.node ++ blocks.map Item.node) ++ rules.map Item.node))) =
      some [.node root] := by
    simp [assemble, Assemble.grammarFile, root]
  have hread := hbody.rule rfl hassemble
  have hentries : layout.entries.map entryText =
      layout.pairs.map pairEntry ++ layout.imaginary.map imaginaryEntry := by
    simp [entries, entryText, Function.comp_def]
  rw [hentries, List.nil_append, ← toList_text] at hread
  refine ⟨_, hread.parse file, ⟨head, options, blocks, rules, rfl, hheadBare, hoptionsBare,
    hoptionsTidy, hblocksBare, hblocksTidy, hrulesBare, ?_⟩⟩
  intro node hnode
  obtain ⟨own, hown, htidy⟩ := hrulesTidy node hnode
  refine htidy.mono fun token htoken => ?_
  simp [hown htoken]

variable {layout : Layout} {source : Source}

theorem Parts.root_bare (parts : Parts layout source) : source.root.bare = layout.tree := by
  have hnodes : layout.entries.map entryNode =
      layout.pairs.map pairNode ++ layout.imaginary.map imaginaryNode := by
    simp [entries, entryNode, Function.comp_def]
  have hblocks := parts.blocks_bare
  rw [hnodes] at hblocks
  simp only [parts.root_eq, Node.bare_addChildren, parts.head_bare, List.map_append,
    parts.options_bare, hblocks, parts.rules_bare]
  rfl

theorem Parts.tidyRoot (parts : Parts layout source) : TidyRoot layout source := by
  have hname : ∀ node ∈ parts.head.children, node.kind = .id :=
    kind_of_bares (by rw [← Node.bare_children, parts.head_bare]) (by simp [headNode])
  have hoptions := kind_of_bares parts.options_bare kind_of_mem_blockNodes
  have hblocks := kind_of_bares parts.blocks_bare kind_of_mem_blockNodes
  have hrules : ∀ node ∈ parts.rules, node.kind = .rule :=
    kind_of_bares parts.rules_bare (by simp [ruleNode])
  have hcases {child : Node} (hchild : child ∈ source.root.children) :
      child ∈ parts.head.children ∨ child ∈ parts.options ∨ child ∈ parts.blocks ∨
        child ∈ parts.rules := by
    simpa [parts.root_eq, or_assoc] using hchild
  constructor
  · intro child hchild hkind
    rcases hcases hchild with hchild | hchild | hchild | hchild
    · simp [hname child hchild] at hkind
    · exact parts.options_tidy child hchild
    · exact parts.blocks_tidy child hchild
    · simp [hrules child hchild] at hkind
  · intro child hchild hkind
    rcases hcases hchild with hchild | hchild | hchild | hchild
    · simp [hname child hchild] at hkind
    · simp [hoptions child hchild] at hkind
    · rw [← Node.bare_children]
      exact children_of_mem_blockNodes (parts.blocks_bare ▸ List.mem_map_of_mem hchild)
    · simp [hrules child hchild] at hkind
  · intro child hchild hkind
    rcases hcases hchild with hchild | hchild | hchild | hchild
    · simp [hname child hchild] at hkind
    · simp [hoptions child hchild] at hkind
    · simp [hblocks child hchild] at hkind
    · exact parts.rules_tidy child hchild

end Layout

end GrammarLint
