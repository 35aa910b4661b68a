import GrammarLint.Proofs.Blocks

/-!
# Reading rules

A rule, written by the conventions, is read as the node it stands for, whatever
its name is, with a colon and a semicolon that start lines of their own.
-/

namespace GrammarLint

open Grammar Text

def Spot.line (spot : Spot) : Nat :=
  spot.before.count '\n' + 1

namespace Layout

/-! ## Alternatives -/

def EndsAbove (tokens : List Token) (spot : Spot) : Prop :=
  ∃ last ∈ tokens, last.index + 1 = spot.index ∧ last.line < spot.line

theorem EndsAbove.mono {tokens more : List Token} {spot : Spot} (h : EndsAbove tokens spot)
    (hmore : tokens ⊆ more) : EndsAbove more spot := by
  obtain ⟨last, hlast, hends⟩ := h
  exact ⟨last, hmore hlast, hends⟩

def lineStart : List Char := '\n' :: indentation

theorem line_lt_lineStart (before text rest : List Char) (index next : Nat) (type : Terminal)
    (shown : List Char) : (tokenAfter before index type shown).line <
      (Spot.mk (before ++ text ++ lineStart) rest next).line := by
  have hbreak : lineStart.count '\n' = 1 := by decide
  simp only [tokenAfter, Spot.line, List.count_append, hbreak]
  omega

section Alternatives

variable {before rest : List Char}

theorem reads_reference (name : Name) {blank : List Char} (index : Nat)
    (hblank : blank.all isSpace = true) (hsolid : Solid rest)
    (hstops : Stops isIdentPart (blank ++ rest)) :
    ∃ node, Reads (.rule .element) ⟨before, name.chars ++ (blank ++ rest), index⟩
      ⟨before ++ name.chars ++ blank, rest, index + 1⟩
      [tokenAfter before index .identifier name.chars] [.node node] ∧
      node.bare = referenceNode name := by
  have hno {expr : Expr} (depth : Nat) := @refuses_at_name depth expr name.chars (blank ++ rest)
    name.valid
  have hatom : Reads Rule.atom.body ⟨before, name.chars ++ (blank ++ rest), index⟩ _ _ _ :=
    .seq (.second (hno 1 rfl (by decide)) (.second (hno 1 rfl (by decide))
        (.second (hno 1 rfl (by decide)) (.second (hno 1 rfl (by decide))
          (.second (hno 1 rfl (by decide))
            (.first (.lexeme (lexes_identifier name.valid hstops))))))))
      (.gap hblank hsolid)
  refine ⟨_, .rule (.second (hno 2 rfl (by decide)) (hatom.rule rfl rfl)) rfl rfl, ?_⟩
  simp [Node.bare_eq, referenceNode, referenceKind, tokenAfter, Name.text]

theorem alternativeText_cons_cons (name next : Name) (names : List Name) :
    alternativeText (name :: next :: names) =
      name.chars ++ ([' '] ++ alternativeText (next :: names)) := by
  simp [alternativeText, List.intercalate]

theorem solid_alternativeText (name : Name) (names : List Name) (rest : List Char) :
    Solid (alternativeText (name :: names) ++ rest) := by
  cases names with
  | nil => simpa [alternativeText, List.intercalate] using name.solid rest
  | cons next names =>
      rw [alternativeText_cons_cons, List.append_assoc]
      exact name.solid _

theorem readsAll_references (name : Name) (names : List Name) (index : Nat) (hsolid : Solid rest) :
    ∃ (tokens : List Token) (nodes : List Node), ReadsAll (.rule .element)
      ⟨before, alternativeText (name :: names) ++ (lineStart ++ rest), index⟩
      ⟨before ++ alternativeText (name :: names) ++ lineStart, rest, index + tokens.length⟩
      tokens (nodes.map .node) ∧
      nodes.map Node.bare = (name :: names).map referenceNode ∧
      EndsAbove tokens
        ⟨before ++ alternativeText (name :: names) ++ lineStart, rest, index + tokens.length⟩ := by
  induction names generalizing name before index with
  | nil =>
      obtain ⟨node, hread, hbare⟩ :=
        @reads_reference before rest name lineStart index rfl hsolid (stops_cons.2 rfl)
      have htext : alternativeText [name] = name.chars := by
        simp [alternativeText, List.intercalate]
      have hmoves : before.length < (before ++ name.chars ++ lineStart).length := by
        simp [lineStart, indentation]
      rw [htext]
      refine ⟨[tokenAfter before index .identifier name.chars], [node],
        .cons hread hmoves (.nil _), by simp [hbare], _, List.mem_singleton.2 rfl, rfl,
        line_lt_lineStart ..⟩
  | cons next names ih =>
      obtain ⟨node, hread, hbare⟩ := @reads_reference before
        (alternativeText (next :: names) ++ (lineStart ++ rest)) name [' '] index rfl
        (solid_alternativeText next names _) (stops_cons.2 rfl)
      obtain ⟨tokens, nodes, hmore, hbares, hends⟩ :=
        @ih (before ++ name.chars ++ [' ']) next (index + 1)
      have hall := ReadsAll.cons hread (by simp) hmore
      have hstop : Spot.mk (before ++ name.chars ++ [' '] ++ alternativeText (next :: names) ++
            lineStart) rest (index + 1 + tokens.length) =
          ⟨before ++ alternativeText (name :: next :: names) ++ lineStart, rest,
            index + (tokenAfter before index .identifier name.chars :: tokens).length⟩ := by
        simp [alternativeText_cons_cons, Nat.add_assoc, Nat.add_comm 1]
      rw [hstop] at hall hends
      refine ⟨_ :: tokens, node :: nodes, ?_, by simp [hbare, hbares],
        hends.mono (List.subset_cons_self _ _)⟩
      convert hall using 1
      · simp [alternativeText_cons_cons]
      · rfl
      · rfl

theorem bare_alternative (nodes : List Node) :
    (Assemble.alternative (nodes.map .node)).bare =
      { kind := .alternative, text := "ALT", children := nodes.map Node.bare } := by
  cases nodes with
  | nil => rfl
  | cons node nodes => simp [Assemble.alternative, Node.bare_eq, Assemble.altLabel]

def EndsAlternative (rest : List Char) : Prop :=
  Solid rest ∧ Refuses (.rule .element) rest

theorem endsAlternative_semicolon (rest : List Char) : EndsAlternative (';' :: rest) :=
  ⟨stops_cons.2 rfl, refuses_of_starts 4 _ rfl (by decide)⟩

theorem endsAlternative_bar (rest : List Char) : EndsAlternative ('|' :: rest) :=
  ⟨stops_cons.2 rfl, refuses_of_starts 4 _ rfl (by decide)⟩

theorem reads_alternative (names : List Name) (index : Nat) (hrest : EndsAlternative rest) :
    ∃ middle tokens node,
      Reads gap ⟨before, ' ' :: alternativeText names ++ (lineStart ++ rest), index⟩ middle [] [] ∧
      Reads (.rule .alternative) middle
        ⟨before ++ ' ' :: alternativeText names ++ lineStart, rest, index + tokens.length⟩ tokens
        [.node node] ∧
      node.bare = alternativeNode names ∧
      ∀ sign : Token, sign.index + 1 = index → sign.line ≤ (before.count '\n' + 1 : Nat) →
        EndsAbove (sign :: tokens)
          ⟨before ++ ' ' :: alternativeText names ++ lineStart, rest, index + tokens.length⟩ := by
  obtain ⟨hsolid, hrefuses⟩ := hrest
  cases names with
  | nil =>
      have hbody : Reads Rule.alternative.body ⟨before ++ ' ' :: lineStart, rest, index⟩ _ _ _ :=
        (ReadsAll.nil _).many (.inr hrefuses)
      have hgap : Reads gap ⟨before, ' ' :: lineStart ++ rest, index⟩ _ _ _ := .gap rfl hsolid
      refine ⟨_, [], _, hgap, (hbody.rule rfl rfl).cast rfl (by simp [alternativeText]), rfl, ?_⟩
      intro sign hindex hline
      exact ⟨sign, List.mem_singleton.2 rfl, hindex,
        Int.lt_of_le_of_lt hline (line_lt_lineStart before _ _ index _ .identifier [])⟩
  | cons name names =>
      obtain ⟨tokens, nodes, hall, hbares, hends⟩ :=
        @readsAll_references (before ++ [' ']) rest name names index hsolid
      have hbody : Reads Rule.alternative.body _ _ _ _ := hall.many (.inr hrefuses)
      have htext : before ++ [' '] ++ alternativeText (name :: names) ++ lineStart =
          before ++ ' ' :: alternativeText (name :: names) ++ lineStart := by simp
      rw [htext] at hbody hends
      have hgap : Reads gap ⟨before, [' '] ++ (alternativeText (name :: names) ++
          (lineStart ++ rest)), index⟩ _ _ _ :=
        .gap rfl (solid_alternativeText name names _)
      refine ⟨_, tokens, _, hgap, hbody.rule rfl rfl, ?_, ?_⟩
      · exact (bare_alternative nodes).trans (by rw [hbares, alternativeNode])
      · intro sign _ _
        exact hends.mono (List.subset_cons_self _ _)

def branchText (sign : Char) (names : List Name) : List Char :=
  sign :: ' ' :: alternativeText names ++ lineStart

theorem endsAlternative_branches (others : List (List Name)) (hrest : EndsAlternative rest) :
    EndsAlternative (others.flatMap (branchText '|') ++ rest) := by
  cases others with
  | nil => exact hrest
  | cons => exact endsAlternative_bar _

theorem readsAll_branches (others : List (List Name)) (index : Nat)
    (hrest : EndsAlternative rest) :
    ∃ tokens items, ReadsAll (.inOrder (Mark.expr .bar) [gap, .rule .alternative])
      ⟨before, others.flatMap (branchText '|') ++ rest, index⟩
      ⟨before ++ others.flatMap (branchText '|'), rest, index + tokens.length⟩ tokens items ∧
      (Item.nodes items).map Node.bare = others.map alternativeNode ∧
      ∀ earlier, EndsAbove earlier ⟨before, others.flatMap (branchText '|') ++ rest, index⟩ →
        EndsAbove (earlier ++ tokens)
          ⟨before ++ others.flatMap (branchText '|'), rest, index + tokens.length⟩ := by
  induction others generalizing before index with
  | nil =>
      refine ⟨[], [], ?_, rfl, ?_⟩
      · convert ReadsAll.nil _ using 1
        simp
      · intro earlier hends
        simpa using hends
  | cons names others ih =>
      obtain ⟨middle, tokens, node, hgap, hread, hbare, hends⟩ :=
        @reads_alternative (before ++ ['|']) (others.flatMap (branchText '|') ++ rest) names
          (index + 1) (endsAlternative_branches others hrest)
      have hbranch : Reads (.inOrder (Mark.expr .bar) [gap, .rule .alternative])
          ⟨before, ['|'] ++ (' ' :: alternativeText names ++
            (lineStart ++ (others.flatMap (branchText '|') ++ rest))), index⟩ _ _ _ :=
        .seq (.lexeme (lexes_mark .bar _)) (.seq hgap hread)
      obtain ⟨more, items, hmore, hbares, hlater⟩ := @ih
        (before ++ ['|'] ++ ' ' :: alternativeText names ++ lineStart) (index + 1 + tokens.length)
      have hall := ReadsAll.cons hbranch (by simp [lineStart]) hmore
      have hstop : Spot.mk (before ++ ['|'] ++ ' ' :: alternativeText names ++ lineStart ++
            others.flatMap (branchText '|')) rest (index + 1 + tokens.length + more.length) =
          ⟨before ++ (names :: others).flatMap (branchText '|'), rest,
            index + (tokenAfter before index (.mark .bar) ['|'] :: tokens ++ more).length⟩ := by
        simp [branchText, Nat.add_assoc, Nat.add_comm 1]
      rw [hstop] at hall hlater
      refine ⟨_, _, hall.cast ?_ rfl, ?_, ?_⟩
      · simp [branchText]
      · simp [hbare, hbares]
      · intro earlier _
        refine (hlater _ (hends (tokenAfter before index (.mark .bar) ['|']) rfl ?_)).mono ?_
        · simp [tokenAfter]
        · exact List.subset_append_right _ _

end Alternatives

/-! ## Rules -/

/-- A rule as it is read: every line goes on to the start of the next. -/
def ruleText (rule : RuleLayout) : List Char :=
  rule.name.chars ++ (lineStart ++ (branchText ':' rule.first ++
    (rule.others.flatMap (branchText '|') ++ [';'])))

theorem joinLines_branches (others : List (List Name)) (rest : List Char) :
    joinLines (others.map ("    | ".toList ++ alternativeText ·)) ++ (indentation ++ rest) =
      indentation ++ (others.flatMap (branchText '|') ++ rest) := by
  induction others with
  | nil => rfl
  | cons names others ih =>
      have hsign : "    | ".toList = indentation ++ ['|', ' '] := rfl
      rw [List.map_cons, joinLines_cons, List.append_assoc, List.cons_append, ih, hsign]
      simp [branchText, lineStart]

theorem joinLines_ruleLines (rule : RuleLayout) :
    joinLines (ruleLines rule) = ruleText rule ++ ['\n'] := by
  have hcolon : "    : ".toList = indentation ++ [':', ' '] := rfl
  have hsemicolon : "    ;".toList = indentation ++ [';'] := rfl
  have hothers := joinLines_branches rule.others [';', '\n']
  rw [ruleLines, List.cons_append, List.cons_append, joinLines_cons, joinLines_cons,
    joinLines_append, joinLines_cons, hcolon, hsemicolon]
  simp only [joinLines, List.flatMap_nil, List.append_assoc, List.cons_append,
    List.nil_append] at hothers ⊢
  rw [hothers]
  simp [ruleText, branchText, lineStart]

section Clashes

variable (name : Name) (rest : List Char)

theorem stops_lineStart (rest : List Char) : Stops isWord (lineStart ++ rest) :=
  stops_cons.2 (by decide)

theorem refuses_construct (word : Keyword) {more : Expr} (hmore : Refuses more (':' :: rest)) :
    Refuses (.seq word.expr (.seq gap more)) (name.chars ++ (lineStart ++ ':' :: rest)) :=
  refuses_clash name.valid rfl (stops_cons.2 rfl) (stops_lineStart _) hmore

theorem refuses_prequel :
    Refuses (.rule .prequel) (name.chars ++ (lineStart ++ ':' :: rest)) := by
  have hoptions : Refuses (.rule .optionsSpec) _ :=
    .rule (refuses_construct name rest .options (refuses_of_starts 2 rest rfl (by decide)))
  have himports : Refuses (.rule .importSpec) _ :=
    .rule (refuses_construct name rest .imports (refuses_of_starts 2 rest rfl (by decide)))
  have htokens : Refuses (.rule .tokensSpec) _ :=
    .rule (refuses_construct name rest .tokens (refuses_of_starts 2 rest rfl (by decide)))
  have hscope : Refuses (.rule .grammarScope) _ :=
    .rule (refuses_construct name rest .scope (refuses_of_starts 2 rest rfl (by decide)))
  have haction : Refuses (.rule .actionSpec) (name.chars ++ (lineStart ++ ':' :: rest)) :=
    refuses_at_name 2 _ name.valid rfl (by decide)
  exact .rule (hoptions.choice (himports.choice (htokens.choice (hscope.choice haction))))

theorem refuses_exceptionGroup :
    Refuses (.rule .exceptionGroup) (name.chars ++ (lineStart ++ ':' :: rest)) := by
  have hcatch : Refuses (.rule .catchClause) _ :=
    .rule (refuses_construct name rest .catchClause (refuses_of_starts 2 rest rfl (by decide)))
  have hfinally : Refuses (.rule .finallyClause) _ :=
    .rule (refuses_construct name rest .finallyClause (refuses_of_starts 2 rest rfl (by decide)))
  exact .rule (hcatch.many1.seq.choice hfinally)

theorem refuses_ruleModifier (hfree : name.text ∉ modifiers) {rest : List Char}
    (hstops : Stops isWord rest) : Refuses (.rule .ruleModifier) (name.chars ++ rest) := by
  have hword (word : Keyword) (hmem : word.text ∈ modifiers) :
      Refuses word.expr (name.chars ++ rest) := by
    refine refuses_keyword name.valid ?_ hstops
    intro hsame
    rw [Name.text, hsame, String.ofList_toList] at hfree
    exact hfree hmem
  exact .rule (.seq ((hword .fragmentRule (by decide)).choice
    ((hword .protectedRule (by decide)).choice
      ((hword .publicRule (by decide)).choice (hword .privateRule (by decide))))))

end Clashes

structure TidyDelimiter (tokens : List Token) (node : Node) : Prop where
  column_eq : node.column = indent
  first : ∃ token ∈ tokens, (token.index + 1 : Int) = node.tokenIndex ∧ token.line ≠ node.line

def TidyRule (tokens : List Token) (node : Node) : Prop :=
  ∃ block closing, node.firstOfKind? .block = some block ∧
    node.firstOfKind? .endOfRule = some closing ∧
    TidyDelimiter tokens block ∧ TidyDelimiter tokens closing

def EndsRule (rest : List Char) : Prop :=
  Solid rest ∧ (rest = [] ∨ Refuses (.rule .exceptionGroup) rest)

theorem tidyDelimiter {before rest text : List Char} {index : Nat} {type : Terminal}
    {tokens : List Token} {node : Node} (hends : EndsAbove tokens ⟨before, rest, index⟩)
    (hindent : Position.sinceBreak before = indent)
    (hcolumn : node.column = (tokenAfter before index type text).column)
    (hline : node.line = (tokenAfter before index type text).line)
    (hindex : node.tokenIndex = (tokenAfter before index type text).index) :
    TidyDelimiter tokens node := by
  obtain ⟨last, hlast, hnumber, habove⟩ := hends
  refine ⟨?_, last, hlast, ?_, ?_⟩
  · rw [hcolumn, tokenAfter, hindent]
  · rw [hindex, tokenAfter]
    exact_mod_cast hnumber
  · rw [hline]
    exact Int.ne_of_lt habove

theorem sinceBreak_lineStart (before : List Char) :
    Position.sinceBreak (before ++ lineStart) = indent :=
  Position.sinceBreak_break (by decide)

theorem sinceBreak_branches {before : List Char} (h : Position.sinceBreak before = indent)
    (others : List (List Name)) :
    Position.sinceBreak (before ++ others.flatMap (branchText '|')) = indent := by
  induction others generalizing before with
  | nil => simpa using h
  | cons names others ih =>
      rw [List.flatMap_cons, ← List.append_assoc]
      refine ih ?_
      rw [branchText, ← List.append_assoc]
      exact sinceBreak_lineStart _

theorem bare_settle (token : Token) (node : Node) : (node.settle token).bare = node.bare := by
  simp [Node.bare_eq]

theorem bare_anchor (token : Token) (node : Node) : (node.anchor token).bare = node.bare := by
  rw [Node.bare_eq, Node.bare_eq node]
  simp [Function.comp_def, bare_settle]

theorem bare_altList {items : List Item} {alternatives : List (List Name)}
    (h : (Item.nodes items).map Node.bare = alternatives.map alternativeNode) :
    (Assemble.altList items).bare =
      { kind := .block, text := "BLOCK", children := alternatives.map alternativeNode } := by
  rw [Node.bare_eq]
  simp [Assemble.altList, Assemble.blockLabel, h]

theorem reads_rule (rule : RuleLayout) :
    ReadsEntry (.rule .ruleSpec) 0 EndsRule TidyRule (ruleText rule) (ruleNode rule) := by
  intro before blank rest index _ hblank hrest
  have hsemicolon : EndsAlternative ([';'] ++ (blank ++ rest)) := endsAlternative_semicolon _
  obtain ⟨middle, tokens, node, hgap, hread, hbare, hfirst⟩ := @reads_alternative
    (before ++ rule.name.chars ++ lineStart ++ [':'])
    (rule.others.flatMap (branchText '|') ++ ([';'] ++ (blank ++ rest))) rule.first (index + 1 + 1)
    (endsAlternative_branches rule.others hsemicolon)
  obtain ⟨more, items, hmore, hbares, hlater⟩ := @readsAll_branches
    (before ++ rule.name.chars ++ lineStart ++ [':'] ++ ' ' :: alternativeText rule.first ++
      lineStart) ([';'] ++ (blank ++ rest)) rule.others (index + 1 + 1 + tokens.length) hsemicolon
  have haltList : Reads (.rule .altList) middle _ _ _ :=
    .rule (.seq hread (hmore.many (.inr (refuses_of_starts 2 _ rfl (by decide))))) rfl rfl
  have hat {expr : Expr} (depth : Nat) := @refuses_of_starts depth expr ':'
  have hbody : Reads Rule.ruleSpec.body ⟨before, rule.name.chars ++ (lineStart ++ ([':'] ++
      (' ' :: alternativeText rule.first ++ (lineStart ++ (rule.others.flatMap (branchText '|') ++
        ([';'] ++ (blank ++ rest))))))), index⟩ _ _ _ :=
    .skip_then (refuses_ruleModifier rule.name rule.name_free (stops_lineStart _))
      (.lexeme_gap (lexes_identifier rule.name.valid (stops_cons.2 rfl)) rfl (stops_cons.2 rfl)
        (.skip_then (hat 2 _ rfl (by decide)) (.skip_then (hat 2 _ rfl (by decide))
          (.skip_then (hat 2 _ rfl (by decide)) (.skip_then (hat 2 _ rfl (by decide))
            (.skip_then (hat 2 _ rfl (by decide)) (.skip_then (hat 2 _ rfl (by decide))
              (.seq ((ReadsAll.nil _).many (.inr (hat 2 _ rfl (by decide))))
                (.seq (.lexeme (lexes_mark .colon _)) (.seq hgap (.seq haltList
                  (.lexeme_gap (lexes_mark .semicolon _) hblank hrest.1
                    (.skip hrest.2)))))))))))))
  let colon : Token :=
    tokenAfter (before ++ rule.name.chars ++ lineStart) (index + 1) (.mark .colon) [':']
  have hblock := (bare_anchor colon _).trans (@bare_altList (.node node :: items)
    (rule.first :: rule.others) (by simp [hbare, hbares]))
  have hcolon : EndsAbove [tokenAfter before index .identifier rule.name.chars]
      ⟨before ++ rule.name.chars ++ lineStart, [], index + 1⟩ :=
    ⟨_, List.mem_singleton.2 rfl, rfl, line_lt_lineStart ..⟩
  have hclosing := hlater _ (hfirst colon rfl (by simp [colon, tokenAfter]))
  refine ⟨_, _, (hbody.rule rfl rfl).cast ?_ ?_, ?_, _, _, rfl, rfl, ?_, ?_⟩
  · simp [ruleText, branchText]
  · rw [Spot.mk.injEq]
    refine ⟨by simp [ruleText, branchText], rfl, ?_⟩
    simp only [List.length_append, List.length_cons, List.length_nil]
    omega
  · rw [ruleNode, ← hblock]
    rfl
  · exact tidyDelimiter (hcolon.mono (by simp)) (sinceBreak_lineStart _) rfl rfl rfl
  · refine tidyDelimiter (hclosing.mono ?_) (sinceBreak_branches (sinceBreak_lineStart _) _)
      rfl rfl rfl
    intro token htoken
    simp only [List.mem_append, List.mem_cons, colon] at htoken ⊢
    tauto

end Layout

end GrammarLint
