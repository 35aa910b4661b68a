import GrammarLint.Proofs.Node
import GrammarLint.Proofs.Outline

/-!
# How nodes are put together

`Assembles` says, rule by rule, which node a rule makes of its tokens and of the
nodes below it.  Reading a match tree never fails, and a property of nodes that
`Assembles` preserves holds of the root of every text that is read: this is the
induction from which facts about trees are derived.
-/

namespace GrammarLint

open Grammar Text

/-! ## Parts of a rule -/

inductive Each (part : List Token → Node → Prop) : List Token → List Node → Prop where
  | nil : Each part [] []
  | cons {tokens more : List Token} {node : Node} {nodes : List Node}
      (hfirst : part tokens node) (hmore : Each part more nodes) :
      Each part (tokens ++ more) (node :: nodes)

inductive Maybe (part : List Token → Node → Prop) : List Token → List Node → Prop where
  | none : Maybe part [] []
  | some {tokens : List Token} {node : Node} (hpart : part tokens node) : Maybe part tokens [node]

def After (sign : Mark) (part : List Token → Node → Prop) (tokens : List Token)
    (node : Node) : Prop :=
  ∃ mark rest, mark.type = .mark sign ∧ part rest node ∧ tokens = mark :: rest

def Before (sign : Mark) (part : List Token → Node → Prop) (tokens : List Token)
    (node : Node) : Prop :=
  ∃ mark rest, mark.type = .mark sign ∧ part rest node ∧ tokens = rest ++ [mark]

/-- Nodes of some of the rules, in the order of the rules and each at most once. -/
inductive InOrder (part : Rule → List Token → Node → Prop) :
    List Rule → List Token → List Node → Prop where
  | nil : InOrder part [] [] []
  | skip {rule : Rule} {rules : List Rule} {tokens : List Token} {nodes : List Node}
      (hmore : InOrder part rules tokens nodes) : InOrder part (rule :: rules) tokens nodes
  | take {rule : Rule} {rules : List Rule} {tokens more : List Token} {node : Node}
      {nodes : List Node} (hfirst : part rule tokens node)
      (hmore : InOrder part rules more nodes) :
      InOrder part (rule :: rules) (tokens ++ more) (node :: nodes)

section Members

variable {tokens : List Token} {nodes : List Node} {node : Node}

theorem Each.mem {part : List Token → Node → Prop} (h : Each part tokens nodes)
    (hmember : node ∈ nodes) : ∃ own, own ⊆ tokens ∧ part own node := by
  induction h with
  | nil => simp at hmember
  | cons hfirst _ ih =>
      rcases List.mem_cons.1 hmember with rfl | hmember
      · exact ⟨_, List.subset_append_left _ _, hfirst⟩
      · obtain ⟨own, hown, hpart⟩ := ih hmember
        exact ⟨own, List.subset_append_of_subset_right _ hown, hpart⟩

theorem Maybe.mem {part : List Token → Node → Prop} (h : Maybe part tokens nodes)
    (hmember : node ∈ nodes) : ∃ own, own ⊆ tokens ∧ part own node := by
  cases h with
  | none => simp at hmember
  | some hpart => exact ⟨_, List.Subset.refl _, List.mem_singleton.1 hmember ▸ hpart⟩

theorem InOrder.mem {part : Rule → List Token → Node → Prop} {rules : List Rule}
    (h : InOrder part rules tokens nodes) (hmember : node ∈ nodes) :
    ∃ rule ∈ rules, ∃ own, own ⊆ tokens ∧ part rule own node := by
  induction h with
  | nil => simp at hmember
  | skip _ ih =>
      obtain ⟨rule, hrule, hpart⟩ := ih hmember
      exact ⟨rule, List.mem_cons_of_mem _ hrule, hpart⟩
  | take hfirst _ ih =>
      rcases List.mem_cons.1 hmember with rfl | hmember
      · exact ⟨_, List.mem_cons_self, _, List.subset_append_left _ _, hfirst⟩
      · obtain ⟨rule, hrule, own, hown, hpart⟩ := ih hmember
        exact ⟨rule, List.mem_cons_of_mem _ hrule, own,
          List.subset_append_of_subset_right _ hown, hpart⟩

theorem After.inner {sign : Mark} {part : List Token → Node → Prop}
    (h : After sign part tokens node) : ∃ own, own ⊆ tokens ∧ part own node := by
  obtain ⟨mark, rest, -, hpart, rfl⟩ := h
  exact ⟨rest, List.subset_cons_self _ _, hpart⟩

theorem Before.inner {sign : Mark} {part : List Token → Node → Prop}
    (h : Before sign part tokens node) : ∃ own, own ⊆ tokens ∧ part own node := by
  obtain ⟨mark, rest, -, hpart, rfl⟩ := h
  exact ⟨rest, List.subset_append_left _ _, hpart⟩

section Inherited

variable {known : Token → Prop} {good : Node → Prop}

theorem Each.forall_mem {part : List Token → Node → Prop} (h : Each part tokens nodes)
    (hpart : ∀ {own node}, part own node → (∀ token ∈ own, known token) → good node)
    (hknown : ∀ token ∈ tokens, known token) : ∀ node ∈ nodes, good node := by
  intro node hnode
  obtain ⟨own, hown, hnode⟩ := h.mem hnode
  exact hpart hnode fun token htoken => hknown token (hown htoken)

theorem Maybe.forall_mem {part : List Token → Node → Prop} (h : Maybe part tokens nodes)
    (hpart : ∀ {own node}, part own node → (∀ token ∈ own, known token) → good node)
    (hknown : ∀ token ∈ tokens, known token) : ∀ node ∈ nodes, good node := by
  intro node hnode
  obtain ⟨own, hown, hnode⟩ := h.mem hnode
  exact hpart hnode fun token htoken => hknown token (hown htoken)

theorem InOrder.forall_mem {part : Rule → List Token → Node → Prop} {rules : List Rule}
    (h : InOrder part rules tokens nodes)
    (hpart : ∀ rule ∈ rules, ∀ {own node}, part rule own node →
      (∀ token ∈ own, known token) → good node)
    (hknown : ∀ token ∈ tokens, known token) : ∀ node ∈ nodes, good node := by
  intro node hnode
  obtain ⟨rule, hrule, own, hown, hnode⟩ := h.mem hnode
  exact hpart rule hrule hnode fun token htoken => hknown token (hown htoken)

end Inherited

end Members

inductive Listed (type : Terminal) : (tokens names : List Token) → Prop where
  | nil : Listed type [] []
  | cons {comma name : Token} {tokens names : List Token} (hcomma : comma.type = .mark .comma)
      (hname : name.type = type) (hmore : Listed type tokens names) :
      Listed type (comma :: name :: tokens) (name :: names)

inductive ScopeNames : (tokens names : List Token) → Prop where
  | none : ScopeNames [] []
  | some {name semicolon : Token} {tokens names : List Token} (hname : name.type = .identifier)
      (hnames : Listed .identifier tokens names)
      (hsemicolon : semicolon.type = .mark .semicolon) :
      ScopeNames (name :: tokens ++ [semicolon]) (name :: names)

theorem Listed.subset {type : Terminal} {tokens names : List Token}
    (h : Listed type tokens names) : names ⊆ tokens := by
  induction h with
  | nil => exact List.Subset.refl _
  | cons _ _ _ ih => exact List.subset_cons_of_subset _ (List.cons_subset_cons _ ih)

theorem ScopeNames.subset {tokens names : List Token} (h : ScopeNames tokens names) :
    names ⊆ tokens := by
  cases h with
  | none => exact List.Subset.refl _
  | some _ hnames _ =>
      exact List.subset_append_of_subset_left _ (List.cons_subset_cons _ hnames.subset)

def optionValueTypes : List Terminal :=
  [.qualifiedId, .stringLiteral, .integer, .mark .star]

def blockTypes : List Terminal :=
  [.actionBlock, .argBlock]

def headParts : List Rule :=
  [.ruleBang, .ruleArgs, .returnsSpec, .throwsSpec, .optionsSpec, .ruleScope]

def endNode (semicolon : Token) : Node :=
  { Node.ofToken .endOfRule semicolon with text := Assemble.endLabel }

/-- The node that a rule makes of its tokens and of the nodes of which `part` holds. -/
inductive Assembles (part : Rule → List Token → Node → Prop) :
    Rule → List Token → Node → Prop where
  | grammarFile {head before rules : List Token} {root : Node} {sections parts : List Node}
      (hhead : part .grammarHead head root) (hsections : Each (part .prequel) before sections)
      (hrules : Each (part .ruleSpec) rules parts) :
      Assembles part .grammarFile (head ++ before ++ rules) (root.addChildren (sections ++ parts))
  | grammarHead {keyword name semicolon : Token} (hkeyword : keyword.type = .keyword .grammar)
      (hname : name.type = .identifier) (hsemicolon : semicolon.type = .mark .semicolon) :
      Assembles part .grammarHead [keyword, name, semicolon]
        ((Node.ofToken .combinedGrammar keyword).addChild (.ofToken .id name))
  | typedHead {type keyword name semicolon : Token} {kind : Kind}
      (htype : type.type ∈ [.keyword .lexer, .keyword .parser, .keyword .tree])
      (hkind : grammarKind? type.type = some kind) (hkeyword : keyword.type = .keyword .grammar)
      (hname : name.type = .identifier) (hsemicolon : semicolon.type = .mark .semicolon) :
      Assembles part .grammarHead [type, keyword, name, semicolon]
        ((Node.ofToken kind type).addChild (.ofToken .id name))
  | prequel {rule : Rule} {tokens : List Token} {node : Node}
      (hrule : rule ∈ [.optionsSpec, .importSpec, .tokensSpec, .grammarScope, .actionSpec])
      (hpart : part rule tokens node) : Assembles part .prequel tokens node
  | optionsSpec {keyword left right : Token} {tokens : List Token} {entries : List Node}
      (hkeyword : keyword.type = .keyword .options) (hleft : left.type = .mark .leftBrace)
      (hright : right.type = .mark .rightBrace) (hentries : Each (part .option) tokens entries) :
      Assembles part .optionsSpec (keyword :: left :: tokens ++ [right])
        ((Node.ofToken .options keyword).addChildren entries)
  | option {key sign value semicolon : Token} (hkey : key.type = .identifier)
      (hsign : sign.type = .mark .assign) (hvalue : value.type ∈ optionValueTypes)
      (hsemicolon : semicolon.type = .mark .semicolon) :
      Assembles part .option [key, sign, value, semicolon]
        (Assemble.pair sign (.ofToken .id key) (.ofToken (Assemble.optionKind value) value))
  | importSpec {keyword semicolon : Token} {first more : List Token} {delegate : Node}
      {delegates : List Node} (hkeyword : keyword.type = .keyword .imports)
      (hfirst : part .delegate first delegate)
      (hmore : Each (After .comma (part .delegate)) more delegates)
      (hsemicolon : semicolon.type = .mark .semicolon) :
      Assembles part .importSpec (keyword :: first ++ more ++ [semicolon])
        ((Node.ofToken .imports keyword).addChildren (delegate :: delegates))
  | delegate {name : Token} (hname : name.type = .identifier) :
      Assembles part .delegate [name] (.ofToken .id name)
  | renamed {short sign name : Token} (hshort : short.type = .identifier)
      (hsign : sign.type = .mark .assign) (hname : name.type = .identifier) :
      Assembles part .delegate [short, sign, name]
        (Assemble.pair sign (.ofToken .id short) (.ofToken .id name))
  | tokensSpec {keyword left right : Token} {tokens : List Token} {entries : List Node}
      (hkeyword : keyword.type = .keyword .tokens) (hleft : left.type = .mark .leftBrace)
      (hright : right.type = .mark .rightBrace)
      (hentries : Each (part .tokenSpec) tokens entries) :
      Assembles part .tokensSpec (keyword :: left :: tokens ++ [right])
        ((Node.ofToken .tokens keyword).addChildren entries)
  | imaginary {name semicolon : Token} (hname : name.type = .identifier)
      (hsemicolon : semicolon.type = .mark .semicolon) :
      Assembles part .tokenSpec [name, semicolon] (.ofToken .tokenRef name)
  | tokenSpec {name sign literal semicolon : Token} (hname : name.type = .identifier)
      (hsign : sign.type = .mark .assign) (hliteral : literal.type = .stringLiteral)
      (hsemicolon : semicolon.type = .mark .semicolon) :
      Assembles part .tokenSpec [name, sign, literal, semicolon]
        (Assemble.pair sign (.ofToken .tokenRef name)
          (.ofToken (literalKind literal.text) literal))
  | grammarScope {keyword name action : Token} (hkeyword : keyword.type = .keyword .scope)
      (hname : name.type = .identifier) (haction : action.type = .actionBlock) :
      Assembles part .grammarScope [keyword, name, action]
        ((Node.ofToken .scope keyword).addChildren [.ofToken .id name, .ofBlock .action action])
  | actionSpec {sign name action : Token} (hsign : sign.type = .mark .atSign)
      (hname : name.type = .identifier) (haction : action.type = .actionBlock) :
      Assembles part .actionSpec [sign, name, action]
        ((Node.ofToken .ampersand sign).addChildren
          [.ofToken .id name, .ofBlock .action action])
  | scopedAction {sign scope colons name action : Token} (hsign : sign.type = .mark .atSign)
      (hscope : scope.type = .identifier) (hcolons : colons.type = .mark .doubleColon)
      (hname : name.type = .identifier) (haction : action.type = .actionBlock) :
      Assembles part .actionSpec [sign, scope, colons, name, action]
        ((Node.ofToken .ampersand sign).addChildren
          [.ofToken .id scope, .ofToken .id name, .ofBlock .action action])
  | ruleSpec {name colon semicolon : Token} {body : List Token} {block : Node}
      {modifier parts actions catches final : List Token × List Node}
      (hmodifier : Maybe (part .ruleModifier) modifier.1 modifier.2)
      (hname : name.type = .identifier) (hparts : InOrder part headParts parts.1 parts.2)
      (hactions : Each (part .actionSpec) actions.1 actions.2)
      (hcolon : colon.type = .mark .colon) (hbody : part .altList body block)
      (hsemicolon : semicolon.type = .mark .semicolon)
      (hcatches : Each (part .catchClause) catches.1 catches.2)
      (hfinal : Maybe (part .finallyClause) final.1 final.2) :
      Assembles part .ruleSpec
        (modifier.1 ++ name :: parts.1 ++ actions.1 ++ colon :: body ++
          semicolon :: catches.1 ++ final.1)
        ((Node.ofToken .rule name).addChildren
          (.ofToken .id name :: modifier.2 ++ parts.2 ++ actions.2 ++ block.anchor colon ::
            catches.2 ++ final.2 ++ [endNode semicolon]))
  | ruleModifier {word : Token} {kind : Kind} (hkind : modifierKind? word.type = some kind) :
      Assembles part .ruleModifier [word] (.ofToken kind word)
  | ruleBang {sign : Token} (hsign : sign.type = .mark .bang) :
      Assembles part .ruleBang [sign] (.ofToken .bang sign)
  | ruleArgs {args : Token} (hargs : args.type = .argBlock) :
      Assembles part .ruleArgs [args] (.ofBlock .argAction args)
  | returnsSpec {keyword args : Token} (hkeyword : keyword.type = .keyword .returns)
      (hargs : args.type = .argBlock) :
      Assembles part .returnsSpec [keyword, args]
        ((Node.ofToken .returns keyword).addChild (.ofBlock .argAction args))
  | throwsSpec {keyword name : Token} {tokens names : List Token}
      (hkeyword : keyword.type = .keyword .throws) (hname : name.type = .qualifiedId)
      (hnames : Listed .qualifiedId tokens names) :
      Assembles part .throwsSpec (keyword :: name :: tokens)
        ((Node.ofToken .throws keyword).addChildren ((name :: names).map (.ofToken .id)))
  | ruleScope {keyword : Token} {actions tokens names : List Token}
      (hkeyword : keyword.type = .keyword .scope) (hcount : actions.length ≤ 1)
      (hactions : ∀ action ∈ actions, action.type = .actionBlock)
      (hnames : ScopeNames tokens names) :
      Assembles part .ruleScope (keyword :: actions ++ tokens)
        ((Node.ofToken .scope keyword).addChildren
          (actions.map (.ofBlock .action) ++ names.map (.ofToken .id)))
  | catchClause {keyword args action : Token} (hkeyword : keyword.type = .keyword .catchClause)
      (hargs : args.type = .argBlock) (haction : action.type = .actionBlock) :
      Assembles part .catchClause [keyword, args, action]
        ((Node.ofToken .catchClause keyword).addChildren
          [.ofBlock .argAction args, .ofBlock .action action])
  | finallyClause {keyword action : Token} (hkeyword : keyword.type = .keyword .finallyClause)
      (haction : action.type = .actionBlock) :
      Assembles part .finallyClause [keyword, action]
        ((Node.ofToken .finallyClause keyword).addChild (.ofBlock .action action))
  | altList {first more : List Token} {alternative : Node} {alternatives : List Node}
      (hfirst : part .alternative first alternative)
      (hmore : Each (After .bar (part .alternative)) more alternatives) :
      Assembles part .altList (first ++ more)
        { kind := .block, text := Assemble.blockLabel, children := alternative :: alternatives }
  | alternative {tokens : List Token} {elements : List Node}
      (helements : Each (part .element) tokens elements) :
      Assembles part .alternative tokens (Assemble.alternative (elements.map .node))
  | element {rule : Rule} {tokens : List Token} {node : Node} (hrule : rule ∈ [.subrule, .atom])
      (hpart : part rule tokens node) : Assembles part .element tokens node
  | subrule {opening closing : Token} {kind : Kind} {options : List Token × List Node}
      {body : List Token} {block : Node}
      (hopening : (opening.type, kind) ∈
        [(.mark .treeBegin, Kind.treeBegin), (.mark .leftParen, .block)])
      (hoptions : Maybe (Before .colon (part .optionsSpec)) options.1 options.2)
      (hbody : part .altList body block) (hclosing : closing.type = .mark .rightParen) :
      Assembles part .subrule (opening :: options.1 ++ body ++ [closing])
        (((Node.ofToken kind opening).addChildren (options.2 ++ block.children)).anchor opening)
  | atom {token : Token} {node : Node} (hnode : Assemble.atom [.token token] = some node) :
      Assembles part .atom [token] node

/-! ## Kinds -/

def atomKinds : List Kind := [
  .tokenRef, .ruleRef, .action, .argAction, .stringLiteral, .charLiteral, .integer, .arrow,
  .range, .plusAssign, .implies, .assign, .optional, .closure, .positiveClosure, .bang, .root,
  .negation, .wildcard, .openElementOption, .closeElementOption, .comma, .labelRef]

def Grammar.Rule.kinds : Rule → List Kind
  | .grammarFile => Kind.grammars
  | .grammarHead => Kind.grammars
  | .prequel => [.options, .imports, .tokens, .scope, .ampersand]
  | .optionsSpec => [.options]
  | .option => [.assign]
  | .importSpec => [.imports]
  | .delegate => [.id, .assign]
  | .tokensSpec => [.tokens]
  | .tokenSpec => [.tokenRef, .assign]
  | .grammarScope => [.scope]
  | .actionSpec => [.ampersand]
  | .ruleSpec => [.rule]
  | .ruleModifier => [.fragmentRule, .protectedRule, .publicRule, .privateRule]
  | .ruleBang => [.bang]
  | .ruleArgs => [.argAction]
  | .returnsSpec => [.returns]
  | .throwsSpec => [.throws]
  | .ruleScope => [.scope]
  | .catchClause => [.catchClause]
  | .finallyClause => [.finallyClause]
  | .altList => [.block]
  | .alternative => [.alternative]
  | .element => .block :: .treeBegin :: atomKinds
  | .subrule => [.block, .treeBegin]
  | .atom => atomKinds
  | _ => []

theorem grammarKind?_mem {type : Terminal} {kind : Kind} (h : grammarKind? type = some kind) :
    kind ∈ Kind.grammars := by
  unfold grammarKind? at h
  split at h <;> simp_all [Kind.grammars]

theorem modifierKind?_mem {type : Terminal} {kind : Kind} (h : modifierKind? type = some kind) :
    kind ∈ Rule.ruleModifier.kinds := by
  unfold modifierKind? at h
  split at h <;> simp_all [Rule.kinds]

theorem operatorKind?_mem {sign : Mark} {kind : Kind} (h : operatorKind? sign = some kind) :
    kind ∈ atomKinds := by
  cases sign <;> cases h <;> decide

theorem opening_mem {type : Terminal} {kind : Kind}
    (h : (type, kind) ∈ [(Terminal.mark .treeBegin, Kind.treeBegin), (.mark .leftParen, .block)]) :
    type ∈ [Terminal.mark .treeBegin, .mark .leftParen] ∧ kind ∈ Rule.subrule.kinds := by
  simp only [List.mem_cons, Prod.mk.injEq, List.not_mem_nil, or_false] at h
  rcases h with ⟨rfl, rfl⟩ | ⟨rfl, rfl⟩ <;> decide

theorem literalKind_cases (text : String) :
    literalKind text = .charLiteral ∨ literalKind text = .stringLiteral := by
  unfold literalKind
  split <;> simp

theorem referenceKind_cases (text : String) :
    referenceKind text = .tokenRef ∨ referenceKind text = .ruleRef := by
  unfold referenceKind
  split <;> simp

theorem atom_cases {token : Token} {node : Node} (h : Assemble.atom [.token token] = some node) :
    (∃ kind ∈ atomKinds, kind ≠ .action ∧ kind ≠ .argAction ∧ node = .ofToken kind token) ∨
      (token.type = .actionBlock ∧ node = .ofBlock .action token) ∨
      (token.type = .argBlock ∧ node = .ofBlock .argAction token) := by
  simp only [Assemble.atom, Item.tokens, List.filterMap_cons, Item.token?, List.filterMap_nil] at h
  split at h
  · cases h
    rcases referenceKind_cases token.text with hkind | hkind <;>
      exact .inl ⟨_, by rw [hkind]; decide, by rw [hkind]; decide, by rw [hkind]; decide, rfl⟩
  · cases h
    exact .inr (.inl ⟨by assumption, rfl⟩)
  · cases h
    exact .inr (.inr ⟨by assumption, rfl⟩)
  · cases h
    rcases literalKind_cases token.text with hkind | hkind <;>
      exact .inl ⟨_, by rw [hkind]; decide, by rw [hkind]; decide, by rw [hkind]; decide, rfl⟩
  · cases h
    exact .inl ⟨_, by decide, by decide, by decide, rfl⟩
  · cases h
    exact .inl ⟨_, by decide, by decide, by decide, rfl⟩
  · rename_i sign _
    obtain ⟨kind, hkind, rfl⟩ := Option.map_eq_some_iff.1 h
    have hplain : kind ≠ .action ∧ kind ≠ .argAction := by
      cases sign <;> cases hkind <;> decide
    exact .inl ⟨kind, operatorKind?_mem hkind, hplain.1, hplain.2, rfl⟩
  · cases h

def Kinded (holds : Rule → List Token → Node → Prop) (rule : Rule) (tokens : List Token)
    (node : Node) : Prop :=
  holds rule tokens node ∧ node.kind ∈ rule.kinds

theorem Assembles.kind_mem {holds : Rule → List Token → Node → Prop} {rule : Rule}
    {tokens : List Token} {node : Node} (h : Assembles (Kinded holds) rule tokens node) :
    node.kind ∈ rule.kinds := by
  cases h with
  | grammarFile hhead => exact hhead.2
  | typedHead _ hkind => exact grammarKind?_mem hkind
  | prequel hrule hpart =>
      have hkind := hpart.2
      simp only [List.mem_cons, List.not_mem_nil, or_false] at hrule
      rcases hrule with rfl | rfl | rfl | rfl | rfl <;> simp_all [Rule.kinds]
  | ruleModifier hkind => exact modifierKind?_mem hkind
  | alternative => simp [Rule.kinds]
  | element hrule hpart =>
      have hkind := hpart.2
      simp only [List.mem_cons, List.not_mem_nil, or_false] at hrule
      rcases hrule with rfl | rfl
      · simp only [Rule.kinds, List.mem_cons, List.not_mem_nil, or_false] at hkind ⊢
        exact hkind.elim .inl fun htree => .inr (.inl htree)
      · exact List.mem_cons_of_mem _ (List.mem_cons_of_mem _ hkind)
  | subrule hopening => exact (opening_mem hopening).2
  | atom hnode =>
      rcases atom_cases hnode with ⟨kind, hkind, -, -, rfl⟩ | ⟨-, rfl⟩ | ⟨-, rfl⟩
      · exact hkind
      · simp [Rule.kinds, atomKinds]
      · simp [Rule.kinds, atomKinds]
  | _ => simp [Rule.kinds, Kind.grammars]

end GrammarLint
