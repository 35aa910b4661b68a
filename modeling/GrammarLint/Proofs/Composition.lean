import GrammarLint.Proofs.Reading

/-!
# Composing nodes

Every rule turns what its body admits into what `Gives` promises of it, so that
reading a match never fails.  A property of nodes that `Assembles` preserves
holds of the root of every text that matches.
-/

namespace GrammarLint

open Grammar Text

def Composes (part : Rule → List Token → Node → Prop) (rule : Rule) : Prop :=
  ∀ {tokens : List Token} {items : List Item}, Admits (Gives part) rule.body tokens items →
    ∃ node, Assembles part rule tokens node ∧ assemble rule items = some [.node node]

section Steps

variable {part : Rule → List Token → Node → Prop}

theorem composes_grammarFile : Composes part .grammarFile := by
  intro tokens items h
  have hsingle : Rule.single .grammarHead = true := rfl
  simp only [Rule.body, Expr.inOrder_cons, Expr.inOrder_nil, Rule.expr_eq, admits_gap_seq,
    admits_single_seq hsingle] at h
  obtain ⟨head, root, hhead, _, _, ⟨rfl, rfl⟩, before, after, _, _, hbefore, hafter, rfl, rfl⟩ := h
  obtain ⟨sections, hsections, rfl⟩ := hbefore.each rfl
  obtain ⟨rules, hrules, rfl⟩ := hafter.each rfl
  rw [← List.append_assoc]
  refine ⟨_, .grammarFile hhead hsections hrules, ?_⟩
  simp [assemble, Assemble.grammarFile]

theorem composes_grammarHead : Composes part .grammarHead := by
  intro tokens items h
  simp [Rule.body] at h
  rcases h with ⟨keyword, hkeyword, name, semicolon, ⟨rfl, rfl⟩, hname, hsemicolon⟩ |
    ⟨type, htype, keyword, name, semicolon, ⟨rfl, rfl⟩, hkeyword, hname, hsemicolon⟩
  · refine ⟨_, .grammarHead hkeyword hname hsemicolon, ?_⟩
    simp [assemble, Assemble.grammarHead, hkeyword, hname, grammarKind?, Item.tokensOf]
  · obtain ⟨kind, hkind⟩ : ∃ kind, grammarKind? type.type = some kind := by
      rcases htype with htype | htype | htype <;> rw [htype] <;> exact ⟨_, rfl⟩
    refine ⟨_, .typedHead (by simpa using htype) hkind hkeyword hname hsemicolon, ?_⟩
    have hnames : Item.tokensOf [.identifier]
        [.token type, .token keyword, .token name, .token semicolon] = [name] := by
      rcases htype with htype | htype | htype <;>
        simp [Item.tokensOf, htype, hkeyword, hname, hsemicolon]
    simp [assemble, Assemble.grammarHead, hnames, hkind]

theorem composes_optionsSpec : Composes part .optionsSpec := by
  intro tokens items h
  simp [Rule.body] at h
  obtain ⟨keyword, hkeyword, left, _, _, ⟨rfl, rfl⟩, hleft, before, _, _, _, hbefore, h, rfl,
    rfl⟩ := h
  simp at h
  obtain ⟨right, hright, rfl, rfl⟩ := h
  obtain ⟨entries, hentries, rfl⟩ := hbefore.each rfl
  refine ⟨_, .optionsSpec hkeyword hleft hright hentries, ?_⟩
  simp [assemble, Assemble.listing, Item.tokensOf, hkeyword]

theorem composes_option : Composes part .option := by
  intro tokens items h
  simp [Rule.body] at h
  obtain ⟨key, hkey, sign, value, semicolon, ⟨rfl, rfl⟩, hsign, hvalue, hsemicolon⟩ := h
  exact ⟨_, .option hkey hsign hvalue hsemicolon, rfl⟩

theorem composes_importSpec : Composes part .importSpec := by
  intro tokens items h
  have hsingle : Rule.single .delegate = true := rfl
  simp only [Rule.body, Expr.inOrder_cons, Expr.inOrder_nil, Rule.expr_eq, Keyword.expr_eq,
    admits_gap_seq, admits_terminal_seq, admits_single_seq hsingle] at h
  obtain ⟨keyword, hkeyword, _, _, ⟨rfl, rfl⟩, first, delegate, hfirst, _, _, ⟨rfl, rfl⟩,
    more, _, _, _, hlist, hlast, rfl, rfl⟩ := h
  simp at hlast
  obtain ⟨semicolon, hsemicolon, rfl, rfl⟩ := hlast
  obtain ⟨delegates, hmore, rfl⟩ := Admits.eachAfter rfl hlist
  rw [← List.append_assoc]
  refine ⟨_, .importSpec hkeyword hfirst hmore hsemicolon, ?_⟩
  simp [assemble, Assemble.listing, Item.tokensOf, hkeyword]

theorem composes_delegate : Composes part .delegate := by
  intro tokens items h
  simp [Rule.body] at h
  obtain ⟨name, hname, _, _, ⟨rfl, rfl⟩, ⟨rfl, rfl⟩ | ⟨sign, hsign, full, ⟨rfl, rfl⟩, hfull⟩⟩ := h
  · exact ⟨_, .delegate hname, rfl⟩
  · exact ⟨_, .renamed hname hsign hfull, rfl⟩

theorem composes_tokensSpec : Composes part .tokensSpec := by
  intro tokens items h
  simp [Rule.body] at h
  obtain ⟨keyword, hkeyword, left, _, _, ⟨rfl, rfl⟩, hleft, before, _, _, _, hbefore, hlast,
    rfl, rfl⟩ := h
  simp at hlast
  obtain ⟨right, hright, rfl, rfl⟩ := hlast
  obtain ⟨entries, hentries, rfl⟩ := hbefore.each rfl
  refine ⟨_, .tokensSpec hkeyword hleft hright hentries, ?_⟩
  simp [assemble, Assemble.listing, Item.tokensOf, hkeyword]

theorem composes_tokenSpec : Composes part .tokenSpec := by
  intro tokens items h
  simp [Rule.body] at h
  obtain ⟨name, hname, _, _, ⟨rfl, rfl⟩, ⟨semicolon, hsemicolon, rfl, rfl⟩ |
    ⟨sign, hsign, literal, semicolon, ⟨rfl, rfl⟩, hliteral, hsemicolon⟩⟩ := h
  · refine ⟨_, .imaginary hname hsemicolon, ?_⟩
    simp [assemble, Assemble.tokenSpec, hsemicolon]
  · refine ⟨_, .tokenSpec hname hsign hliteral hsemicolon, ?_⟩
    simp [assemble, Assemble.tokenSpec, hsign]

theorem composes_grammarScope : Composes part .grammarScope := by
  intro tokens items h
  simp [Rule.body] at h
  obtain ⟨keyword, hkeyword, name, action, ⟨rfl, rfl⟩, hname, haction⟩ := h
  refine ⟨_, .grammarScope hkeyword hname haction, ?_⟩
  simp [assemble, Assemble.grammarScope, Item.tokensOf, hkeyword, hname, haction]

theorem composes_actionSpec : Composes part .actionSpec := by
  intro tokens items h
  simp [Rule.body] at h
  obtain ⟨sign, hsign, _, _, ⟨rfl, rfl⟩, ⟨name, hname, action, ⟨rfl, rfl⟩, haction⟩ |
    ⟨scope, hscope, colons, name, action, ⟨rfl, rfl⟩, hcolons, hname, haction⟩⟩ := h
  · refine ⟨_, .actionSpec hsign hname haction, ?_⟩
    simp [assemble, Assemble.actionSpec, Item.tokensOf, hsign, hname, haction]
  · refine ⟨_, .scopedAction hsign hscope hcolons hname haction, ?_⟩
    simp [assemble, Assemble.actionSpec, Item.tokensOf, hsign, hscope, hcolons, hname, haction]

theorem composes_ruleModifier : Composes part .ruleModifier := by
  intro tokens items h
  simp [Rule.body] at h
  obtain ⟨word, kind, hkind, rfl, rfl⟩ : ∃ (word : Token) (kind : Kind),
      modifierKind? word.type = some kind ∧ tokens = [word] ∧ items = [.token word] := by
    rcases h with ⟨word, hword, htokens⟩ | ⟨word, hword, htokens⟩ | ⟨word, hword, htokens⟩ |
      ⟨word, hword, htokens⟩ <;> exact ⟨word, _, by rw [hword]; rfl, htokens⟩
  refine ⟨_, .ruleModifier hkind, ?_⟩
  simp [assemble, Assemble.ruleModifier, hkind]

theorem composes_ruleBang : Composes part .ruleBang := by
  intro tokens items h
  simp [Rule.body] at h
  obtain ⟨sign, hsign, rfl, rfl⟩ := h
  exact ⟨_, .ruleBang hsign, rfl⟩

theorem composes_ruleArgs : Composes part .ruleArgs := by
  intro tokens items h
  simp [Rule.body] at h
  obtain ⟨args, hargs, rfl, rfl⟩ := h
  exact ⟨_, .ruleArgs hargs, rfl⟩

theorem composes_returnsSpec : Composes part .returnsSpec := by
  intro tokens items h
  simp [Rule.body] at h
  obtain ⟨keyword, hkeyword, args, ⟨rfl, rfl⟩, hargs⟩ := h
  exact ⟨_, .returnsSpec hkeyword hargs, rfl⟩

theorem Listed.filter {type : Terminal} {tokens names : List Token} (h : Listed type tokens names)
    (types : List Terminal) (htype : type ∈ types) (hcomma : .mark .comma ∉ types) :
    tokens.filter (types.contains ·.type) = names := by
  induction h with
  | nil => rfl
  | cons hmark hname _ ih => simp_all

theorem composes_throwsSpec : Composes part .throwsSpec := by
  intro tokens items h
  simp only [Rule.body, Expr.inOrder_cons, Expr.inOrder_nil, Keyword.expr_eq,
    admits_gap_seq, admits_terminal_seq] at h
  obtain ⟨keyword, hkeyword, _, _, ⟨rfl, rfl⟩, hnames⟩ := h
  simp only [Terminal.expr_eq, admits_gap_seq, admits_terminal_seq] at hnames
  obtain ⟨name, hname, more, _, ⟨rfl, rfl⟩, hmore⟩ := hnames
  obtain ⟨names, hlisted, rfl⟩ := Admits.listed hmore
  refine ⟨_, .throwsSpec hkeyword hname hlisted, ?_⟩
  have hmembers := hlisted.filter [.keyword .throws, .qualifiedId] (by decide) (by decide)
  simp at hmembers
  simp [assemble, Assemble.throwsSpec, Item.tokensOf, hkeyword, hname, hmembers]

theorem ScopeNames.filterMap {tokens names : List Token} (h : ScopeNames tokens names) :
    tokens.filterMap Assemble.scopePart? = names.map (.ofToken .id) := by
  have hlisted {tokens names : List Token} (h : Listed .identifier tokens names) :
      tokens.filterMap Assemble.scopePart? = names.map (.ofToken .id) := by
    induction h with
    | nil => rfl
    | cons hcomma hname _ ih => simp [Assemble.scopePart?, hcomma, hname, ih]
  cases h with
  | none => rfl
  | some hname hnames hsemicolon =>
      simp [Assemble.scopePart?, hname, hsemicolon, hlisted hnames]

theorem Admits.scopeNames {tokens : List Token} {items : List Item}
    (h : Admits (Gives part) (.optional (.inOrder identifier
      [gap, .many (.inOrder (Mark.expr .comma) [gap, identifier, gap]),
        Mark.expr .semicolon, gap])) tokens items) :
    ∃ names, ScopeNames tokens names ∧ items = tokens.map .token := by
  rcases admits_optional.1 h with ⟨rfl, rfl⟩ | hsome
  · exact ⟨[], .none, rfl⟩
  · simp only [Expr.inOrder_cons, Expr.inOrder_nil, identifier_eq, admits_terminal_seq,
      admits_gap_seq] at hsome
    obtain ⟨name, hname, _, _, ⟨rfl, rfl⟩, more, _, _, _, hmore, hlast, rfl, rfl⟩ := hsome
    simp at hlast
    obtain ⟨semicolon, hsemicolon, rfl, rfl⟩ := hlast
    obtain ⟨names, hlisted, rfl⟩ := Admits.listed hmore
    exact ⟨name :: names, .some hname hlisted hsemicolon, by simp⟩

theorem composes_ruleScope : Composes part .ruleScope := by
  intro tokens items h
  have hbody : Admits (Gives part) (.seq (Keyword.expr .scope) (.seq gap
    (.seq (.optional (.seq actionBlock gap)) (.optional (.inOrder identifier
      [gap, .many (.inOrder (Mark.expr .comma) [gap, identifier, gap]),
        Mark.expr .semicolon, gap]))))) tokens items := h
  simp only [Keyword.expr_eq, admits_terminal_seq, admits_gap_seq, admits_optional_seq,
    admits_seq_seq, actionBlock_eq] at hbody
  obtain ⟨keyword, hkeyword, _, _, ⟨rfl, rfl⟩,
    hnames | ⟨action, haction, _, _, ⟨rfl, rfl⟩, hnames⟩⟩ := hbody
  · obtain ⟨names, hnames', rfl⟩ := hnames.scopeNames
    refine ⟨_, @Assembles.ruleScope part keyword [] _ _ hkeyword (by simp) (by simp) hnames', ?_⟩
    simp [assemble, Assemble.ruleScope, hnames'.filterMap]
  · obtain ⟨names, hnames', rfl⟩ := hnames.scopeNames
    refine ⟨_, @Assembles.ruleScope part keyword [action] _ _ hkeyword (by simp)
      (by simpa using haction) hnames', ?_⟩
    simp [assemble, Assemble.ruleScope, Assemble.scopePart?, haction, hnames'.filterMap]

theorem composes_catchClause : Composes part .catchClause := by
  intro tokens items h
  simp [Rule.body] at h
  obtain ⟨keyword, hkeyword, args, action, ⟨rfl, rfl⟩, hargs, haction⟩ := h
  exact ⟨_, .catchClause hkeyword hargs haction, rfl⟩

theorem composes_finallyClause : Composes part .finallyClause := by
  intro tokens items h
  simp [Rule.body] at h
  obtain ⟨keyword, hkeyword, action, ⟨rfl, rfl⟩, haction⟩ := h
  exact ⟨_, .finallyClause hkeyword haction, rfl⟩

theorem composes_altList : Composes part .altList := by
  intro tokens items h
  have hsingle : Rule.single .alternative = true := rfl
  simp only [Rule.body, Expr.inOrder_cons, Expr.inOrder_nil, Rule.expr_eq,
    admits_single_seq hsingle] at h
  obtain ⟨first, alternative, hfirst, more, _, ⟨rfl, rfl⟩, hlist⟩ := h
  obtain ⟨alternatives, hmore, rfl⟩ := Admits.eachAfter rfl hlist
  exact ⟨_, .altList hfirst hmore, rfl⟩

theorem composes_alternative : Composes part .alternative := by
  intro tokens items h
  obtain ⟨elements, helements, rfl⟩ := Admits.each rfl h
  exact ⟨_, .alternative helements, rfl⟩

theorem Admits.subruleOptions {rest : Expr} {tokens : List Token} {items : List Item}
    (h : Admits (Gives part) (.seq (.optional (.rule .subruleOptions)) rest) tokens items) :
    ∃ (options : List Token × List Node) (after : List Token) (firsts others : List Item),
      Maybe (Before .colon (part .optionsSpec)) options.1 options.2 ∧
        Item.nodes firsts = options.2 ∧ tokens = options.1 ++ after ∧ items = firsts ++ others ∧
          Admits (Gives part) rest after others := by
  obtain ⟨_, after, _, others, hoptional, hrest, rfl, rfl⟩ := h
  rcases admits_optional.1 hoptional with ⟨rfl, rfl⟩ | hgroup
  · exact ⟨([], []), after, [], others, .none, rfl, rfl, rfl, hrest⟩
  · obtain ⟨options, colon, node, hnode, hcolon, rfl, rfl⟩ := hgroup
    exact ⟨(options ++ [colon], [node]), after, _, others,
      .some ⟨colon, options, hcolon, hnode, rfl⟩, rfl, rfl, rfl, hrest⟩

theorem composes_subrule : Composes part .subrule := by
  intro tokens items h
  have hbody : Admits (Gives part) (.seq (.choice (Mark.expr .treeBegin) (Mark.expr .leftParen))
    (.seq gap (.seq (.optional (.rule .subruleOptions)) (.seq (.rule .altList)
      (.seq (Mark.expr .rightParen) gap))))) tokens items := h
  simp only [admits_choice_seq, Mark.expr_eq, admits_terminal_seq, admits_gap_seq] at hbody
  obtain ⟨opening, kind, more, others, hopening, hkind, hrest, rfl, rfl⟩ :
      ∃ (opening : Token) (kind : Kind) (more : List Token) (others : List Item),
        (opening.type, kind) ∈
          [(.mark .treeBegin, Kind.treeBegin), (.mark .leftParen, .block)] ∧
        (if opening.type = .mark .treeBegin then Kind.treeBegin else .block) = kind ∧
        Admits (Gives part) (.seq (.optional (.rule .subruleOptions)) (.seq (.rule .altList)
          (.seq (.rule (.terminal (.mark .rightParen))) gap))) more others ∧
        tokens = opening :: more ∧ items = .token opening :: others := by
    rcases hbody with ⟨opening, hopening, more, others, ⟨rfl, rfl⟩, hrest⟩ |
      ⟨opening, hopening, more, others, ⟨rfl, rfl⟩, hrest⟩
    · exact ⟨opening, .treeBegin, more, others, by simp [hopening], by simp [hopening], hrest,
        rfl, rfl⟩
    · exact ⟨opening, .block, more, others, by simp [hopening], by simp [hopening], hrest,
        rfl, rfl⟩
  obtain ⟨options, _, firsts, _, hoptions, hfirsts, rfl, rfl, hlist⟩ := hrest.subruleOptions
  have hsingle : Rule.single .altList = true := rfl
  simp only [admits_single_seq hsingle, admits_terminal_seq, admits_gap] at hlist
  obtain ⟨body, block, hblock, _, _, ⟨rfl, rfl⟩, closing, hclosing, _, _, ⟨rfl, rfl⟩, rfl, rfl⟩ :=
    hlist
  rw [← List.append_assoc, ← List.cons_append, ← List.cons_append]
  refine ⟨_, .subrule hopening hoptions hblock hclosing, ?_⟩
  simp [assemble, Assemble.subrule, hfirsts, hkind]

theorem composes_atom : Composes part .atom := by
  intro tokens items h
  simp [Rule.body] at h
  obtain ⟨token, hsome, rfl, rfl⟩ : ∃ token : Token,
      (Assemble.atom [.token token]).isSome = true ∧ tokens = [token] ∧
        items = [.token token] := by
    rcases h with ⟨token, htype, htokens⟩ | ⟨token, htype, htokens⟩ | ⟨token, htype, htokens⟩ |
      ⟨token, htype, htokens⟩ | ⟨token, htype, htokens⟩ | ⟨token, htype, htokens⟩ | hoperator
    all_goals try exact ⟨token, by simp [Assemble.atom, htype], htokens⟩
    obtain ⟨_, _, _, _, ⟨token, sign, htype, hkind, rfl, rfl⟩, ⟨rfl, rfl⟩, rfl, rfl⟩ := hoperator
    exact ⟨token, by simp [Assemble.atom, htype, hkind], rfl, rfl⟩
  obtain ⟨node, hnode⟩ := Option.isSome_iff_exists.1 hsome
  exact ⟨node, .atom hnode, by simp [assemble, hnode]⟩

/-! ## Rules -/

theorem ruleParts_nodes {colon end? : Option Token} {nodes : List Node} {items : List Item}
    (h : colon = none ∨ ∀ node ∈ nodes, node.kind ≠ .block) :
    Assemble.ruleParts colon end? (nodes.map .node ++ items) =
      (nodes ++ (Assemble.ruleParts colon end? items).1,
        (Assemble.ruleParts colon end? items).2) := by
  induction nodes with
  | nil => rfl
  | cons node nodes ih =>
      have hrest := ih (h.imp_right fun hkinds other hother =>
        hkinds other (List.mem_cons_of_mem _ hother))
      simp only [List.map_cons, List.cons_append, Assemble.ruleParts, hrest]
      split
      · rcases h with hnone | hkinds
        · simp at hnone
        · exact absurd (by assumption) (hkinds node List.mem_cons_self)
      · rfl

theorem Admits.exceptions {tokens : List Token} {items : List Item}
    (h : Admits (Gives part) (.optional (.rule .exceptionGroup)) tokens items) :
    ∃ catches final : List Token × List Node, Each (part .catchClause) catches.1 catches.2 ∧
      Maybe (part .finallyClause) final.1 final.2 ∧
      tokens = catches.1 ++ final.1 ∧ items = (catches.2 ++ final.2).map .node := by
  rcases admits_optional.1 h with ⟨rfl, rfl⟩ | hgroup
  · exact ⟨([], []), ([], []), .nil, .none, rfl, rfl⟩
  · exact hgroup

theorem composes_ruleSpec
    (hkinds : ∀ rule tokens node, part rule tokens node → node.kind ∈ rule.kinds) :
    Composes part .ruleSpec := by
  intro tokens items h
  have hbody : Admits (Gives part)
    (.seq (.optional (.rule .ruleModifier)) (.seq identifier (.seq gap
    (optionals headParts (.seq (.many (.rule .actionSpec)) (.seq (Mark.expr .colon)
      (.seq gap (.seq (.rule .altList) (.seq (Mark.expr .semicolon) (.seq gap
        (.optional (.rule .exceptionGroup)))))))))))) tokens items := h
  obtain ⟨before, _, _, _, hoptional, hrest, rfl, rfl⟩ := hbody
  obtain ⟨modifier, hmodifier, rfl⟩ := hoptional.maybe rfl
  simp only [identifier_eq, admits_terminal_seq, admits_gap_seq] at hrest
  obtain ⟨name, hname, _, _, ⟨rfl, rfl⟩, hparts⟩ := hrest
  obtain ⟨parts, partNodes, hinOrder, _, _, ⟨rfl, rfl⟩, hactions⟩ := hparts.inOrder (by decide)
  obtain ⟨actions, _, _, _, hmany, hrest, rfl, rfl⟩ := hactions
  obtain ⟨actionNodes, heach, rfl⟩ := hmany.each rfl
  have hsingle : Rule.single .altList = true := rfl
  simp only [Mark.expr_eq, admits_terminal_seq, admits_gap_seq, admits_single_seq hsingle] at hrest
  obtain ⟨colon, hcolon, _, _, ⟨rfl, rfl⟩, body, block, hblock, _, _, ⟨rfl, rfl⟩,
    semicolon, hsemicolon, _, _, ⟨rfl, rfl⟩, hgroup⟩ := hrest
  obtain ⟨catches, final, hcatches, hfinal, rfl, rfl⟩ := hgroup.exceptions
  have hmodifier' : Maybe (part .ruleModifier) (before, modifier).1 (before, modifier).2 :=
    hmodifier
  have hparts' : InOrder part headParts (parts, partNodes).1 (parts, partNodes).2 := hinOrder
  have hactions' : Each (part .actionSpec) (actions, actionNodes).1 (actions, actionNodes).2 :=
    heach
  have hnode := Assembles.ruleSpec hmodifier' hname hparts' hactions' hcolon hblock hsemicolon
    hcatches hfinal
  simp only [List.append_assoc, List.cons_append] at hnode
  refine ⟨_, hnode, ?_⟩
  have hnames : Item.tokensOf [.identifier] (modifier.map .node ++ .token name ::
      (partNodes.map .node ++ (actionNodes.map .node ++ .token colon :: .node block ::
        .token semicolon :: (catches.2 ++ final.2).map .node))) = [name] := by
    simp [Item.tokensOf, hname, hcolon, hsemicolon]
  have hblockKind : block.kind = .block := by
    simpa [Rule.kinds] using hkinds _ _ _ hblock
  have hclosing : ∀ node ∈ catches.2 ++ final.2, node.kind ≠ .block := by
    intro node hmember
    rcases List.mem_append.1 hmember with hmember | hmember
    · obtain ⟨_, -, hpart⟩ := hcatches.mem hmember
      have := hkinds _ _ _ hpart
      simp [Rule.kinds] at this
      simp [this]
    · obtain ⟨_, -, hpart⟩ := hfinal.mem hmember
      have := hkinds _ _ _ hpart
      simp [Rule.kinds] at this
      simp [this]
  have hlast :=
    @ruleParts_nodes (some colon) (some semicolon) (catches.2 ++ final.2) [] (.inr hclosing)
  simp only [List.append_nil, Assemble.ruleParts] at hlast
  simp only [assemble, Assemble.ruleSpec, hnames, ruleParts_nodes (.inl rfl), Assemble.ruleParts,
    hname, hcolon, hsemicolon, hlast, hblockKind]
  simp [endNode]

/-! ## Rules without a node of their own -/

section Passing

variable {tokens : List Token} {items : List Item}

theorem composes_prequel : Composes part .prequel := by
  intro tokens items h
  obtain ⟨rule, hrule, node, hnode, rfl⟩ : ∃ rule,
      rule ∈ [Rule.optionsSpec, .importSpec, .tokensSpec, .grammarScope, .actionSpec] ∧
        ∃ node, part rule tokens node ∧ items = [.node node] := by
    rcases h with hrule | hrule | hrule | hrule | hrule <;> exact ⟨_, by decide, hrule⟩
  exact ⟨node, .prequel hrule hnode, rfl⟩

theorem composes_element : Composes part .element := by
  intro tokens items h
  obtain ⟨rule, hrule, node, hnode, rfl⟩ : ∃ rule, rule ∈ [Rule.subrule, .atom] ∧
      ∃ node, part rule tokens node ∧ items = [.node node] := by
    rcases h with hrule | hrule <;> exact ⟨_, by decide, hrule⟩
  exact ⟨node, .element hrule hnode, rfl⟩

theorem gives_grammarType (h : Admits (Gives part) Rule.grammarType.body tokens items) :
    Gives part .grammarType tokens items := by
  simp [Rule.body] at h
  rcases h with ⟨token, htype, htokens⟩ | ⟨token, htype, htokens⟩ | ⟨token, htype, htokens⟩ <;>
    exact ⟨token, by simp [htype], htokens⟩

theorem gives_optionValue (h : Admits (Gives part) Rule.optionValue.body tokens items) :
    Gives part .optionValue tokens items := by
  simp [Rule.body] at h
  rcases h with ⟨token, htype, htokens⟩ | ⟨token, htype, htokens⟩ | ⟨token, htype, htokens⟩ |
    ⟨token, htype, htokens⟩ <;> exact ⟨token, by simp [htype, optionValueTypes], htokens⟩

theorem gives_operator (h : Admits (Gives part) Rule.operator.body tokens items) :
    Gives part .operator tokens items := by
  rcases h with h | h | h | h | h | h | h | h | h | h | h | h | h | h | h | h <;>
    · obtain ⟨token, htype, htokens⟩ := h
      exact ⟨token, _, htype, rfl, htokens⟩

theorem gives_exceptionGroup (h : Admits (Gives part) Rule.exceptionGroup.body tokens items) :
    Gives part .exceptionGroup tokens items := by
  rcases h with ⟨_, _, _, _, hcatches, hfinal, rfl, rfl⟩ | ⟨node, hnode, rfl⟩
  · obtain ⟨catches, heach, rfl⟩ := Admits.each rfl hcatches
    obtain ⟨final, hmaybe, rfl⟩ := Admits.maybe rfl hfinal
    exact ⟨(_, catches), (_, final), heach, hmaybe, rfl, by simp⟩
  · exact ⟨([], []), (tokens, [node]), .nil, .some hnode, rfl, rfl⟩

theorem gives_subruleOptions (h : Admits (Gives part) Rule.subruleOptions.body tokens items) :
    Gives part .subruleOptions tokens items := by
  have hsingle : Rule.single .optionsSpec = true := rfl
  simp only [Rule.body, Expr.inOrder_cons, Expr.inOrder_nil, Rule.expr_eq, Mark.expr_eq,
    admits_single_seq hsingle, admits_terminal_seq, admits_gap] at h
  obtain ⟨options, node, hnode, _, _, ⟨rfl, rfl⟩, colon, hcolon, _, _, ⟨rfl, rfl⟩, rfl, rfl⟩ := h
  exact ⟨options, colon, node, hnode, hcolon, rfl, rfl⟩

end Passing

/-! ## Reading a match -/

theorem gives_of_admits
    (hkinds : ∀ rule tokens node, part rule tokens node → node.kind ∈ rule.kinds)
    (hpart : ∀ rule tokens node, Assembles part rule tokens node → part rule tokens node)
    {rule : Rule} {tokens : List Token} {items : List Item} (hgrouping : rule.grouping = true)
    (h : Admits (Gives part) rule.body tokens items) :
    ∃ found, assemble rule items = some found ∧ Gives part rule tokens found := by
  have hcomposed (hcomposes : Composes part rule) (hsingle : rule.single = true) :
      ∃ found, assemble rule items = some found ∧ Gives part rule tokens found := by
    obtain ⟨node, hnode, hitems⟩ := hcomposes h
    exact ⟨_, hitems, (gives_single hsingle).2 ⟨node, hpart _ _ _ hnode, rfl⟩⟩
  cases rule with
  | terminal | trivia => simp [Rule.grouping] at hgrouping
  | actionChunk | actionNested | actionString | actionComment | actionText | actionQuote |
    argChunk | argNested | argText => simp [Rule.grouping, Rule.embedded] at hgrouping
  | grammarFile => exact hcomposed composes_grammarFile rfl
  | grammarHead => exact hcomposed composes_grammarHead rfl
  | optionsSpec => exact hcomposed composes_optionsSpec rfl
  | option => exact hcomposed composes_option rfl
  | importSpec => exact hcomposed composes_importSpec rfl
  | delegate => exact hcomposed composes_delegate rfl
  | tokensSpec => exact hcomposed composes_tokensSpec rfl
  | tokenSpec => exact hcomposed composes_tokenSpec rfl
  | grammarScope => exact hcomposed composes_grammarScope rfl
  | actionSpec => exact hcomposed composes_actionSpec rfl
  | ruleSpec => exact hcomposed (composes_ruleSpec hkinds) rfl
  | ruleModifier => exact hcomposed composes_ruleModifier rfl
  | ruleBang => exact hcomposed composes_ruleBang rfl
  | ruleArgs => exact hcomposed composes_ruleArgs rfl
  | returnsSpec => exact hcomposed composes_returnsSpec rfl
  | throwsSpec => exact hcomposed composes_throwsSpec rfl
  | ruleScope => exact hcomposed composes_ruleScope rfl
  | catchClause => exact hcomposed composes_catchClause rfl
  | finallyClause => exact hcomposed composes_finallyClause rfl
  | altList => exact hcomposed composes_altList rfl
  | alternative => exact hcomposed composes_alternative rfl
  | subrule => exact hcomposed composes_subrule rfl
  | atom => exact hcomposed composes_atom rfl
  | prequel => exact hcomposed composes_prequel rfl
  | element => exact hcomposed composes_element rfl
  | grammarType => exact ⟨items, rfl, gives_grammarType h⟩
  | optionValue => exact ⟨items, rfl, gives_optionValue h⟩
  | operator => exact ⟨items, rfl, gives_operator h⟩
  | exceptionGroup => exact ⟨items, rfl, gives_exceptionGroup h⟩
  | subruleOptions => exact ⟨items, rfl, gives_subruleOptions h⟩

theorem Outline.itemsOf_append (parts more : List Outline) :
    itemsOf (parts ++ more) =
      (itemsOf parts).bind fun first => (itemsOf more).map fun rest => first ++ rest := by
  induction parts with
  | nil => cases h : itemsOf more <;> simp [itemsOf, h]
  | cons part parts ih =>
      simp only [List.cons_append, itemsOf, ih]
      cases items part <;> cases itemsOf parts <;> cases itemsOf more <;> simp

theorem Grammar.Yields.admits
    (hkinds : ∀ rule tokens node, part rule tokens node → node.kind ∈ rule.kinds)
    (hpart : ∀ rule tokens node, Assembles part rule tokens node → part rule tokens node)
    {lines : LineIndex} {expr : Expr} {cursor next : Cursor} {trees : List Tree}
    (h : Yields expr cursor (some (trees, next))) (hvisible : expr.visible = true) (index : Nat) :
    ∃ items, Outline.itemsOf (Outline.ofTrees lines index trees).1 = some items ∧
      Admits (Gives part) expr (Outline.allTokens (Outline.ofTrees lines index trees).1)
        items := by
  generalize hresult : some (trees, next) = result at h
  induction h generalizing trees next index with
  | literal | pattern => simp [Expr.visible] at hvisible
  | @rule rule cursor _ children hbody ih =>
      cases hresult
      have hembedded : rule.embedded = false := by simpa [Expr.visible] using hvisible
      rcases Rule.visible_cases hembedded with ⟨type, rfl⟩ | rfl | hgrouping
      · rw [Outline.ofTrees_terminal]
        exact ⟨_, rfl, _, rfl, rfl, rfl⟩
      · exact ⟨[], by simp [Outline.itemsOf], by simp, rfl⟩
      · obtain ⟨items, hitems, hadmits⟩ := ih (Rule.visible_body hgrouping) index rfl
        obtain ⟨found, hfound, hgives⟩ := gives_of_admits hkinds hpart hgrouping hadmits
        rw [Outline.ofTrees_group _ hgrouping]
        refine ⟨found, by simp [Outline.itemsOf, Outline.items, hitems, hfound], ?_⟩
        rw [Outline.allTokens_group]
        exact hgives
  | seq _ _ ihFirst ihSecond =>
      cases hresult
      simp only [Expr.visible, Bool.and_eq_true] at hvisible
      obtain ⟨firsts, hfirsts, hadmits⟩ := ihFirst hvisible.1 index rfl
      obtain ⟨seconds, hseconds, hmore⟩ := ihSecond hvisible.2 _ rfl
      refine ⟨firsts ++ seconds, ?_, ?_⟩
      · rw [Outline.ofTrees_append, Outline.itemsOf_append, hfirsts, hseconds]
        rfl
      · rw [Outline.ofTrees_append, Outline.allTokens_append]
        exact ⟨_, _, _, _, hadmits, hmore, rfl, rfl⟩
  | first _ ih =>
      simp only [Expr.visible, Bool.and_eq_true] at hvisible
      obtain ⟨items, hitems, hadmits⟩ := ih hvisible.1 index hresult
      exact ⟨items, hitems, .inl hadmits⟩
  | second _ _ _ ih =>
      simp only [Expr.visible, Bool.and_eq_true] at hvisible
      obtain ⟨items, hitems, hadmits⟩ := ih hvisible.2 index hresult
      exact ⟨items, hitems, .inr hadmits⟩
  | optionalAtEnd | optionalNone =>
      cases hresult
      exact ⟨[], rfl, .inl ⟨rfl, rfl⟩⟩
  | optionalSome _ _ ih =>
      obtain ⟨items, hitems, hadmits⟩ := ih hvisible index hresult
      exact ⟨items, hitems, .inr hadmits⟩
  | manyAtEnd | manyNone =>
      cases hresult
      exact ⟨[], rfl, .nil⟩
  | manyLast _ _ _ ih =>
      obtain ⟨items, hitems, hadmits⟩ := ih hvisible index hresult
      have hrepeats := Repeats.cons hadmits .nil
      rw [List.append_nil, List.append_nil] at hrepeats
      exact ⟨items, hitems, hrepeats⟩
  | manyMore _ _ _ _ ihFirst ihMore =>
      cases hresult
      obtain ⟨firsts, hfirsts, hadmits⟩ := ihFirst hvisible index rfl
      obtain ⟨others, hothers, hmore⟩ := ihMore hvisible _ rfl
      refine ⟨firsts ++ others, ?_, ?_⟩
      · rw [Outline.ofTrees_append, Outline.itemsOf_append, hfirsts, hothers]
        rfl
      · rw [Outline.ofTrees_append, Outline.allTokens_append]
        exact .cons hadmits hmore
  | many1Some _ _ _ _ ihAll => exact ihAll hvisible index hresult
  | noLiteral | noPattern | noRule | noFirst | noSecond | many1AtEnd | many1None => cases hresult

end Steps

section Roots

/-- What nodes have that are put together of nodes that have it and are of the
kinds of their rules. -/
def Inductive (holds : Rule → List Token → Node → Prop) : Prop :=
  ∀ {rule tokens node},
    Assembles (Kinded holds) rule tokens node → holds rule tokens node

variable {holds : Rule → List Token → Node → Prop}

theorem Grammar.Accepts.holds_root (hholds : Inductive holds) {chars : List Char} {tree : Tree}
    (h : Accepts .grammarFile chars tree) :
    ∃ root, Outline.itemsOf (outlineOf chars tree) = some [.node root] ∧
      holds .grammarFile (Outline.allTokens (outlineOf chars tree)) root := by
  obtain ⟨next, hyields, -⟩ := h
  obtain ⟨items, hitems, node, hnode, rfl⟩ :=
    @Yields.admits (Kinded holds) (fun _ _ _ hnode => hnode.2)
      (fun _ _ _ hnode => ⟨hholds hnode, hnode.kind_mem⟩) _ _ _ _ _ hyields rfl 0
  rw [Outline.ofTrees_singleton] at hitems hnode
  exact ⟨node, hitems, hnode.1⟩

theorem Grammar.Accepts.source {text : String} {tree : Tree}
    (h : Accepts .grammarFile text.toList tree) (file : Option String) :
    ∃ source, Source.ofTree file text.toList tree = some source ∧
      Source.parse text file = .ok source := by
  have hholds : Inductive fun _ _ _ => True := fun _ => trivial
  obtain ⟨root, hitems, -⟩ := h.holds_root hholds
  have hsource : Source.ofTree file text.toList tree = some
      ⟨root, (Outline.allTokens (outlineOf text.toList tree)).toArray, file⟩ :=
    Source.ofTree_eq_some_iff.2 ⟨root, [], hitems, rfl⟩
  exact ⟨_, hsource, Source.parse_eq_ok_iff.2 ⟨tree, h, hsource⟩⟩

theorem Source.holds_root (hholds : Inductive holds) {text : String} {file : Option String}
    {source : Source} (h : Source.parse text file = .ok source) :
    holds .grammarFile source.tokens.toList source.root := by
  obtain ⟨tree, haccepts, hsource⟩ := Source.parse_eq_ok_iff.1 h
  obtain ⟨root, more, hitems, rfl⟩ := Source.ofTree_eq_some_iff.1 hsource
  obtain ⟨other, hother, hholds⟩ := haccepts.holds_root hholds
  rw [hitems] at hother
  cases hother
  simpa using hholds

end Roots

end GrammarLint
