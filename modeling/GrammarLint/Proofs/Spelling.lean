import GrammarLint.Proofs.Composition

/-!
# Texts of nodes

The text of a node is the text of a token, the inside of a block, or a label.  So
what is known of the characters of tokens is known of the texts of all nodes.
-/

namespace GrammarLint

open Grammar

inductive Spelt (tokens : List Token) (node : Node) : Prop where
  | token {token : Token} (hmember : token ∈ tokens) (htype : token.type ∉ blockTypes)
      (htext : node.text = token.text)
  | inside {token : Token} (hmember : token ∈ tokens)
      (hkind : node.kind ∈ [Kind.action, .argAction])
      (htext : node.text = String.ofList token.text.toList.tail.dropLast)
  | label (htext : node.text ∈ [Assemble.blockLabel, Assemble.altLabel, Assemble.endLabel])

def SpeltBelow (tokens : List Token) (node : Node) : Prop :=
  ∀ below ∈ node.preorder, Spelt tokens below

section Nodes

variable {tokens : List Token} {token : Token} {node : Node} {kind : Kind} {nodes : List Node}

theorem speltBelow_iff :
    SpeltBelow tokens node ↔ Spelt tokens node ∧ ∀ child ∈ node.children, SpeltBelow tokens child :=
  Node.forall_mem_preorder

theorem speltBelow_addChildren (hmember : token ∈ tokens) (htype : token.type ∉ blockTypes)
    (hnodes : ∀ child ∈ nodes, SpeltBelow tokens child) :
    SpeltBelow tokens ((Node.ofToken kind token).addChildren nodes) :=
  speltBelow_iff.2 ⟨.token hmember htype rfl, hnodes⟩

theorem speltBelow_ofToken (hmember : token ∈ tokens) (htype : token.type ∉ blockTypes) :
    SpeltBelow tokens (.ofToken kind token) :=
  speltBelow_iff.2 ⟨.token hmember htype rfl, by simp⟩

theorem speltBelow_ofBlock (hmember : token ∈ tokens) (hkind : kind ∈ [Kind.action, .argAction]) :
    SpeltBelow tokens (.ofBlock kind token) :=
  speltBelow_iff.2 ⟨.inside hmember hkind rfl, by simp⟩

theorem speltBelow_pair {left right : Node} (hmember : token ∈ tokens)
    (htype : token.type ∉ blockTypes) (hleft : SpeltBelow tokens left)
    (hright : SpeltBelow tokens right) : SpeltBelow tokens (Assemble.pair token left right) :=
  speltBelow_addChildren hmember htype (by simpa using ⟨hleft, hright⟩)

theorem Spelt.of_eq {other : Node} (h : Spelt tokens node) (hkind : other.kind = node.kind)
    (htext : other.text = node.text) : Spelt tokens other := by
  cases h with
  | token hmember htype heq => exact .token hmember htype (htext.trans heq)
  | inside hmember hinside heq => exact .inside hmember (hkind ▸ hinside) (htext.trans heq)
  | label hlabel => exact .label (htext ▸ hlabel)

theorem SpeltBelow.settle (h : SpeltBelow tokens node) (sign : Token) :
    SpeltBelow tokens (node.settle sign) := by
  obtain ⟨hspelt, hchildren⟩ := speltBelow_iff.1 h
  exact speltBelow_iff.2 ⟨hspelt.of_eq (by simp) (by simp), by simpa using hchildren⟩

theorem SpeltBelow.anchor (h : SpeltBelow tokens node) (sign : Token) :
    SpeltBelow tokens (node.anchor sign) := by
  obtain ⟨hspelt, hchildren⟩ := speltBelow_iff.1 h
  refine speltBelow_iff.2 ⟨hspelt.of_eq rfl rfl, ?_⟩
  rw [Node.anchor_children]
  exact List.forall_mem_map.2 fun child hchild => (hchildren child hchild).settle sign

theorem speltBelow_atom (hmember : token ∈ tokens)
    (hnode : Assemble.atom [.token token] = some node) : SpeltBelow tokens node := by
  by_cases htype : token.type ∈ blockTypes
  · simp only [blockTypes, List.mem_cons, List.not_mem_nil, or_false] at htype
    rcases htype with htype | htype
    all_goals
      simp only [Assemble.atom, Item.tokens_cons_token, htype, Option.some.injEq] at hnode
      exact hnode ▸ speltBelow_ofBlock hmember (by decide)
  · rcases atom_cases hnode with ⟨kind, -, -, -, rfl⟩ | ⟨-, rfl⟩ | ⟨-, rfl⟩
    · exact speltBelow_ofToken hmember htype
    · exact speltBelow_ofBlock hmember (by decide)
    · exact speltBelow_ofBlock hmember (by decide)

end Nodes

/-! ## Nodes of rules -/

theorem Listed.type_eq {type : Terminal} {tokens names : List Token}
    (h : Listed type tokens names) : ∀ name ∈ names, name.type = type := by
  induction h with
  | nil => simp
  | cons _ hname _ ih => exact List.forall_mem_cons.2 ⟨hname, ih⟩

theorem ScopeNames.type_eq {tokens names : List Token} (h : ScopeNames tokens names) :
    ∀ name ∈ names, name.type = .identifier := by
  cases h with
  | none => simp
  | some hname hnames _ => exact List.forall_mem_cons.2 ⟨hname, hnames.type_eq⟩

def SpeltIn (tokens : List Token) (_ : Rule) (own : List Token) (node : Node) : Prop :=
  (∀ token ∈ own, token ∈ tokens) → SpeltBelow tokens node

section Parts

variable {tokens own : List Token} {rule : Rule} {nodes : List Node}

theorem Each.spelt (h : Each (Kinded (SpeltIn tokens) rule) own nodes)
    (hown : ∀ token ∈ own, token ∈ tokens) : ∀ node ∈ nodes, SpeltBelow tokens node :=
  h.forall_mem (fun hpart => hpart.1) hown

theorem Maybe.spelt (h : Maybe (Kinded (SpeltIn tokens) rule) own nodes)
    (hown : ∀ token ∈ own, token ∈ tokens) : ∀ node ∈ nodes, SpeltBelow tokens node :=
  h.forall_mem (fun hpart => hpart.1) hown

theorem Each.speltAfter {sign : Mark}
    (h : Each (After sign (Kinded (SpeltIn tokens) rule)) own nodes)
    (hown : ∀ token ∈ own, token ∈ tokens) : ∀ node ∈ nodes, SpeltBelow tokens node := by
  refine h.forall_mem (fun hafter htokens => ?_) hown
  obtain ⟨rest, hrest, hpart⟩ := hafter.inner
  exact hpart.1 fun token htoken => htokens token (hrest htoken)

theorem Maybe.speltBefore {sign : Mark}
    (h : Maybe (Before sign (Kinded (SpeltIn tokens) rule)) own nodes)
    (hown : ∀ token ∈ own, token ∈ tokens) : ∀ node ∈ nodes, SpeltBelow tokens node := by
  refine h.forall_mem (fun hbefore htokens => ?_) hown
  obtain ⟨rest, hrest, hpart⟩ := hbefore.inner
  exact hpart.1 fun token htoken => htokens token (hrest htoken)

theorem InOrder.spelt {rules : List Rule} (h : InOrder (Kinded (SpeltIn tokens)) rules own nodes)
    (hown : ∀ token ∈ own, token ∈ tokens) : ∀ node ∈ nodes, SpeltBelow tokens node :=
  h.forall_mem (fun _ _ _ _ hpart => hpart.1) hown

end Parts

theorem inductive_spelt (tokens : List Token) : Inductive (SpeltIn tokens) := by
  intro rule own node h hown
  cases h with
  | grammarFile hhead hsections hrules =>
      simp only [List.forall_mem_append] at hown
      obtain ⟨hspelt, hchildren⟩ := speltBelow_iff.1 (hhead.1 hown.1.1)
      refine speltBelow_iff.2 ⟨hspelt.of_eq rfl rfl, ?_⟩
      simp only [Node.addChildren_children, List.forall_mem_append]
      exact ⟨hchildren, hsections.spelt hown.1.2, hrules.spelt hown.2⟩
  | grammarHead hkeyword hname =>
      simp only [List.forall_mem_cons] at hown
      refine speltBelow_addChildren hown.1 (by simp [hkeyword, blockTypes]) ?_
      simpa using speltBelow_ofToken hown.2.1 (by simp [hname, blockTypes])
  | typedHead htype _ _ hname =>
      simp only [List.forall_mem_cons] at hown
      refine speltBelow_addChildren hown.1 ?_ ?_
      · simp only [List.mem_cons, List.not_mem_nil, or_false] at htype
        rcases htype with htype | htype | htype <;> simp [htype, blockTypes]
      · simpa using speltBelow_ofToken hown.2.2.1 (by simp [hname, blockTypes])
  | prequel _ hpart => exact hpart.1 hown
  | optionsSpec hkeyword _ _ hentries =>
      simp only [List.forall_mem_append, List.forall_mem_cons] at hown
      exact speltBelow_addChildren hown.1.1 (by simp [hkeyword, blockTypes])
        (hentries.spelt hown.1.2.2)
  | option hkey hsign hvalue =>
      simp only [List.forall_mem_cons] at hown
      refine speltBelow_pair hown.2.1 (by simp [hsign, blockTypes])
        (speltBelow_ofToken hown.1 (by simp [hkey, blockTypes]))
        (speltBelow_ofToken hown.2.2.1 ?_)
      simp only [optionValueTypes, List.mem_cons, List.not_mem_nil, or_false] at hvalue
      rcases hvalue with hvalue | hvalue | hvalue | hvalue <;> simp [hvalue, blockTypes]
  | importSpec hkeyword hfirst hmore =>
      simp only [List.forall_mem_append, List.forall_mem_cons] at hown
      obtain ⟨⟨⟨hword, hnames⟩, hothers⟩, -⟩ := hown
      refine speltBelow_addChildren hword (by simp [hkeyword, blockTypes]) ?_
      exact List.forall_mem_cons.2 ⟨hfirst.1 hnames, hmore.speltAfter hothers⟩
  | delegate hname =>
      simp only [List.forall_mem_cons] at hown
      exact speltBelow_ofToken hown.1 (by simp [hname, blockTypes])
  | renamed hshort hsign hname =>
      simp only [List.forall_mem_cons] at hown
      exact speltBelow_pair hown.2.1 (by simp [hsign, blockTypes])
        (speltBelow_ofToken hown.1 (by simp [hshort, blockTypes]))
        (speltBelow_ofToken hown.2.2.1 (by simp [hname, blockTypes]))
  | tokensSpec hkeyword _ _ hentries =>
      simp only [List.forall_mem_append, List.forall_mem_cons] at hown
      exact speltBelow_addChildren hown.1.1 (by simp [hkeyword, blockTypes])
        (hentries.spelt hown.1.2.2)
  | imaginary hname =>
      simp only [List.forall_mem_cons] at hown
      exact speltBelow_ofToken hown.1 (by simp [hname, blockTypes])
  | tokenSpec hname hsign hliteral =>
      simp only [List.forall_mem_cons] at hown
      exact speltBelow_pair hown.2.1 (by simp [hsign, blockTypes])
        (speltBelow_ofToken hown.1 (by simp [hname, blockTypes]))
        (speltBelow_ofToken hown.2.2.1 (by simp [hliteral, blockTypes]))
  | grammarScope hkeyword hname =>
      simp only [List.forall_mem_cons] at hown
      refine speltBelow_addChildren hown.1 (by simp [hkeyword, blockTypes]) ?_
      simpa using ⟨speltBelow_ofToken hown.2.1 (by simp [hname, blockTypes]),
        speltBelow_ofBlock hown.2.2.1 (by decide)⟩
  | actionSpec hsign hname =>
      simp only [List.forall_mem_cons] at hown
      refine speltBelow_addChildren hown.1 (by simp [hsign, blockTypes]) ?_
      simpa using ⟨speltBelow_ofToken hown.2.1 (by simp [hname, blockTypes]),
        speltBelow_ofBlock hown.2.2.1 (by decide)⟩
  | scopedAction hsign hscope _ hname =>
      simp only [List.forall_mem_cons] at hown
      obtain ⟨hat, hfirst, -, hsecond, hblock, -⟩ := hown
      refine speltBelow_addChildren hat (by simp [hsign, blockTypes]) ?_
      simpa using ⟨speltBelow_ofToken hfirst (by simp [hscope, blockTypes]),
        speltBelow_ofToken hsecond (by simp [hname, blockTypes]),
        speltBelow_ofBlock hblock (by decide)⟩
  | ruleSpec hmodifier hname hparts hactions _ hbody _ hcatches hfinal =>
      simp only [List.forall_mem_append, List.forall_mem_cons] at hown
      obtain ⟨⟨⟨⟨⟨hwords, hfirst, hheading⟩, hsections⟩, -, hinner⟩, -, hhandlers⟩, hlast⟩ := hown
      refine speltBelow_addChildren hfirst (by simp [hname, blockTypes]) ?_
      simp only [List.forall_mem_append, List.forall_mem_cons]
      refine ⟨⟨⟨⟨⟨⟨?_, hmodifier.spelt hwords⟩, hparts.spelt hheading⟩, hactions.spelt hsections⟩,
        (hbody.1 hinner).anchor _, hcatches.spelt hhandlers⟩, hfinal.spelt hlast⟩, ?_, by simp⟩
      · exact speltBelow_ofToken hfirst (by simp [hname, blockTypes])
      · exact speltBelow_iff.2 ⟨.label (by simp [endNode]), by simp [endNode]⟩
  | ruleModifier hkind =>
      simp only [List.forall_mem_cons] at hown
      refine speltBelow_ofToken hown.1 fun htype => ?_
      simp only [blockTypes, List.mem_cons, List.not_mem_nil, or_false] at htype
      rcases htype with htype | htype <;> simp [htype, modifierKind?] at hkind
  | ruleBang hsign =>
      simp only [List.forall_mem_cons] at hown
      exact speltBelow_ofToken hown.1 (by simp [hsign, blockTypes])
  | ruleArgs =>
      simp only [List.forall_mem_cons] at hown
      exact speltBelow_ofBlock hown.1 (by decide)
  | returnsSpec hkeyword =>
      simp only [List.forall_mem_cons] at hown
      refine speltBelow_addChildren hown.1 (by simp [hkeyword, blockTypes]) ?_
      simpa using speltBelow_ofBlock hown.2.1 (by decide)
  | throwsSpec hkeyword hname hnames =>
      simp only [List.forall_mem_cons] at hown
      refine speltBelow_addChildren hown.1 (by simp [hkeyword, blockTypes])
        (List.forall_mem_map.2 (List.forall_mem_cons.2 ⟨?_, fun other hother => ?_⟩))
      · exact speltBelow_ofToken hown.2.1 (by simp [hname, blockTypes])
      · exact speltBelow_ofToken (hown.2.2 other (hnames.subset hother))
          (by simp [hnames.type_eq other hother, blockTypes])
  | ruleScope hkeyword _ _ hnames =>
      simp only [List.forall_mem_append, List.forall_mem_cons] at hown
      refine speltBelow_addChildren hown.1.1 (by simp [hkeyword, blockTypes])
        (List.forall_mem_append.2 ⟨List.forall_mem_map.2 fun action haction => ?_,
          List.forall_mem_map.2 fun name hname => ?_⟩)
      · exact speltBelow_ofBlock (hown.1.2 action haction) (by decide)
      · exact speltBelow_ofToken (hown.2 name (hnames.subset hname))
          (by simp [hnames.type_eq name hname, blockTypes])
  | catchClause hkeyword =>
      simp only [List.forall_mem_cons] at hown
      refine speltBelow_addChildren hown.1 (by simp [hkeyword, blockTypes]) ?_
      simpa using ⟨speltBelow_ofBlock hown.2.1 (by decide),
        speltBelow_ofBlock hown.2.2.1 (by decide)⟩
  | finallyClause hkeyword =>
      simp only [List.forall_mem_cons] at hown
      refine speltBelow_addChildren hown.1 (by simp [hkeyword, blockTypes]) ?_
      simpa using speltBelow_ofBlock hown.2.1 (by decide)
  | altList hfirst hmore =>
      simp only [List.forall_mem_append] at hown
      refine speltBelow_iff.2 ⟨.label (by simp), ?_⟩
      exact List.forall_mem_cons.2 ⟨hfirst.1 hown.1, hmore.speltAfter hown.2⟩
  | @alternative _ elements helements =>
      exact speltBelow_iff.2 ⟨.label (by simp), by simpa using helements.spelt hown⟩
  | element _ hpart => exact hpart.1 hown
  | @subrule opening closing kind options body block hopening hoptions hbody =>
      simp only [List.forall_mem_append, List.forall_mem_cons] at hown
      obtain ⟨⟨⟨hfirst, hsettings⟩, hinner⟩, -⟩ := hown
      have htypes : ∀ type ∈ [Terminal.mark .treeBegin, .mark .leftParen], type ∉ blockTypes := by
        decide
      refine (speltBelow_addChildren hfirst (htypes _ (opening_mem hopening).1) ?_).anchor opening
      exact List.forall_mem_append.2 ⟨hoptions.speltBefore hsettings,
        (speltBelow_iff.1 (hbody.1 hinner)).2⟩
  | atom hnode =>
      simp only [List.forall_mem_cons] at hown
      exact speltBelow_atom hown.1 hnode

theorem Source.spelt {text : String} {file : Option String} {source : Source}
    (h : Source.parse text file = .ok source) :
    SpeltBelow source.tokens.toList source.root :=
  Source.holds_root (inductive_spelt _) h fun _ htoken => htoken

end GrammarLint
