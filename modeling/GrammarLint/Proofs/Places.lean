import GrammarLint.Proofs.Leaves

/-!
# Nodes and their tokens

Every node but an empty alternative has a token, at whose place it stands and
whose text it shows; an empty alternative stands where its block starts.
-/

namespace GrammarLint

open Grammar Text

/-! ## The token of a node -/

/-- The text of a node, from its token and the kind of the node above.  Blocks of
code lose their brackets; the body of a rule, alternatives and the end of a rule
have labels. -/
def Shows (above : Option Kind) (node : Node) (token : Token) : Prop :=
  match node.kind with
  | .action => token.text.toList = '\x7b' :: node.text.toList ++ ['\x7d']
  | .argAction => token.text.toList = '[' :: node.text.toList ++ [']']
  | .alternative => node.text = "ALT"
  | .endOfRule => node.text = "<end-of-rule>"
  | .block => node.text = if above = some .rule then "BLOCK" else token.text
  | _ => node.text = token.text

/-- A node corresponds to a token of the list, and an empty alternative to the
token that opens the block above it. -/
structure Linked (tokens : List Token) (above : Option Node) (node : Node) : Prop where
  free_iff : node.tokenIndex = -1 ↔ node.kind = .alternative ∧ node.children = []
  free_place : node.tokenIndex = -1 → ∃ block sign place, above = some block ∧
    block.kind ∈ [Kind.block, .treeBegin] ∧ block.tokenIndex = (place : Nat) ∧
    tokens[place]? = some sign ∧
    sign.type ∈ [Terminal.mark .colon, .mark .leftParen, .mark .treeBegin] ∧
    node.line = sign.line ∧ node.column = sign.column
  token : node.tokenIndex ≠ -1 → ∃ token place, node.tokenIndex = (place : Nat) ∧
    tokens[place]? = some token ∧ node.line = token.line ∧ node.column = token.column ∧
    Shows (above.map Node.kind) node token

def LinkedBelow (tokens : List Token) (node : Node) : Prop :=
  ∀ parent ∈ node.preorder, ∀ child ∈ parent.children, Linked tokens (some parent) child

theorem linkedBelow_iff {tokens : List Token} {node : Node} :
    LinkedBelow tokens node ↔
      ∀ child ∈ node.children, Linked tokens (some node) child ∧ LinkedBelow tokens child := by
  unfold LinkedBelow
  rw [Node.forall_mem_preorder]
  simp only [imp_and, forall_and]

theorem linkedBelow_leaf {tokens : List Token} {node : Node} (h : node.children = []) :
    LinkedBelow tokens node :=
  linkedBelow_iff.2 (by simp [h])

section Tokens

variable {tokens : List Token}

structure Known (tokens : List Token) (token : Token) : Prop where
  at_index : tokens[token.index]? = some token
  matched : token.Matched

structure Owned (tokens : List Token) (node : Node) : Prop where
  not_free : ¬(node.kind = .alternative ∧ node.children = [])
  token : ∃ token : Token, tokens[token.index]? = some token ∧ node.tokenIndex = token.index ∧
    node.line = token.line ∧ node.column = token.column ∧ Shows none node token

theorem Owned.linked {node : Node} (h : Owned tokens node) {above : Option Node}
    (habove : node.kind = .block → above.map Node.kind ≠ some .rule) :
    Linked tokens above node := by
  obtain ⟨hnot, token, htoken, hindex, hline, hcolumn, hshows⟩ := h
  have hsome : node.tokenIndex ≠ -1 := by omega
  refine ⟨⟨fun hfree => absurd hfree hsome, fun hfree => absurd hfree hnot⟩,
    fun hfree => absurd hfree hsome, fun _ => ⟨token, _, hindex, htoken, hline, hcolumn, ?_⟩⟩
  unfold Shows at hshows ⊢
  split at hshows
  all_goals simp_all

structure Whole (tokens : List Token) (node : Node) : Prop where
  owned : Owned tokens node
  below : LinkedBelow tokens node

theorem whole_of_children {node : Node} (howned : Owned tokens node)
    (hchildren : ∀ child ∈ node.children,
      Whole tokens child ∧ (child.kind = .block → node.kind ≠ .rule)) : Whole tokens node := by
  refine ⟨howned, linkedBelow_iff.2 fun child hchild => ?_⟩
  obtain ⟨hwhole, hblock⟩ := hchildren child hchild
  exact ⟨hwhole.owned.linked (by simpa using hblock), hwhole.below⟩

theorem Whole.linked {node : Node} (h : Whole tokens node) (hkind : node.kind ≠ .block)
    (above : Option Node) : Linked tokens above node ∧ LinkedBelow tokens node :=
  ⟨h.owned.linked fun hblock => absurd hblock hkind, h.below⟩

theorem whole_leaf {node : Node} (howned : Owned tokens node) (h : node.children = []) :
    Whole tokens node :=
  ⟨howned, linkedBelow_leaf h⟩

/-! ## Nodes of tokens -/

def Kind.verbatim (kind : Kind) : Bool :=
  kind ∉ [.action, .argAction, .alternative, .endOfRule]

theorem shows_of_verbatim {node : Node} {token : Token} (hkind : Kind.verbatim node.kind = true)
    (htext : node.text = token.text) : Shows none node token := by
  unfold Shows
  split <;> simp_all [Kind.verbatim]

theorem owned_ofToken {kind : Kind} {token : Token} (h : Known tokens token)
    (hkind : Kind.verbatim kind = true) (nodes : List Node) :
    Owned tokens ((Node.ofToken kind token).addChildren nodes) := by
  refine ⟨?_, token, h.at_index, rfl, rfl, rfl, shows_of_verbatim hkind rfl⟩
  rintro ⟨hfree, -⟩
  cases hfree
  simp [Kind.verbatim] at hkind

theorem whole_ofToken {kind : Kind} {token : Token} (h : Known tokens token)
    (hkind : Kind.verbatim kind = true) : Whole tokens (.ofToken kind token) :=
  whole_leaf (owned_ofToken h hkind []) rfl

theorem text_of_brackets {token : Token} {left right : String} (first last : Char)
    {inner : Expr} (h : token.Matched)
    (htype : token.type.body = .inOrder (.literal left) [inner, .literal right])
    (hleft : left.toList = [first]) (hright : right.toList = [last]) :
    token.text.toList = first :: token.text.toList.tail.dropLast ++ [last] := by
  obtain ⟨cursor, trees, next, hyields, htext⟩ := h
  rw [htype] at hyields
  cases hyields with
  | seq hopen hrest =>
      cases hopen with
      | literal =>
          cases hrest with
          | seq hinner hclose =>
              cases hclose with
              | literal =>
                  rw [htext, Tree.allChars_append, Tree.allChars_append, Tree.allChars_text,
                    Tree.allChars_text, hleft, hright]
                  simp

theorem whole_action {token : Token} (h : Known tokens token) (htype : token.type = .actionBlock) :
    Whole tokens (.ofBlock .action token) := by
  refine whole_leaf ⟨by simp, token, h.at_index, rfl, rfl, rfl, ?_⟩ rfl
  have htext := text_of_brackets '\x7b' '\x7d' h.matched (by rw [htype]; rfl) rfl rfl
  simpa [Shows] using htext

theorem whole_argAction {token : Token} (h : Known tokens token)
    (htype : token.type = .argBlock) : Whole tokens (.ofBlock .argAction token) := by
  refine whole_leaf ⟨by simp, token, h.at_index, rfl, rfl, rfl, ?_⟩ rfl
  have htext := text_of_brackets '[' ']' h.matched (by rw [htype]; rfl) rfl rfl
  simpa [Shows] using htext

/-! ## Alternatives -/

/-- An alternative whose block may not be in its place yet: it has a token of its
own, or no token and no children. -/
def Waiting (tokens : List Token) (node : Node) : Prop :=
  node.kind = .alternative ∧
    ((node.children = [] ∧ node.tokenIndex = -1) ∨ Whole tokens node)

def openingTypes : List Terminal :=
  [.mark .colon, .mark .leftParen, .mark .treeBegin]

theorem Owned.settle_eq {node : Node} (h : Owned tokens node) (sign : Token) :
    node.settle sign = node := by
  obtain ⟨token, -, hindex, -⟩ := h.token
  exact if_neg (by omega)

theorem Waiting.settle {node block : Node} {sign : Token} (h : Waiting tokens node)
    (hsign : Known tokens sign) (htype : sign.type ∈ openingTypes)
    (hkind : block.kind ∈ [Kind.block, .treeBegin]) (hindex : block.tokenIndex = sign.index) :
    Linked tokens (some block) (node.settle sign) ∧ LinkedBelow tokens (node.settle sign) := by
  obtain ⟨halternative, ⟨hchildren, hfree⟩ | hwhole⟩ := h
  · have hmoved : node.settle sign = node.moveTo sign := if_pos (by omega)
    rw [hmoved]
    refine ⟨⟨by simp [hfree, halternative, hchildren], fun _ => ?_, fun hsome => ?_⟩,
      linkedBelow_leaf hchildren⟩
    · exact ⟨block, sign, sign.index, rfl, hkind, hindex, hsign.at_index, htype, rfl, rfl⟩
    · exact absurd hfree hsome
  · rw [hwhole.owned.settle_eq]
    exact ⟨hwhole.owned.linked (by simp [halternative]), hwhole.below⟩

theorem linked_body {parent block : Node} {colon : Token} (hparent : parent.kind = .rule)
    (hcolon : Known tokens colon) (htype : colon.type = .mark .colon) (hkind : block.kind = .block)
    (htext : block.text = "BLOCK") (hwaiting : ∀ node ∈ block.children, Waiting tokens node) :
    Linked tokens (some parent) (block.anchor colon) ∧
      LinkedBelow tokens (block.anchor colon) := by
  constructor
  · have hsome : (block.anchor colon).tokenIndex ≠ -1 := by
      rw [Node.anchor_tokenIndex]
      omega
    refine ⟨⟨fun hfree => absurd hfree hsome, by simp [hkind]⟩, fun hfree => absurd hfree hsome,
      fun _ => ⟨colon, colon.index, rfl, hcolon.at_index, rfl, rfl, ?_⟩⟩
    simp [Shows, hkind, hparent, htext]
  · refine linkedBelow_iff.2 fun child hchild => ?_
    obtain ⟨node, hnode, rfl⟩ := List.mem_map.1 hchild
    exact (hwaiting node hnode).settle hcolon (by simp [htype, openingTypes]) (by simp [hkind]) rfl

theorem whole_subrule {opening : Token} {kind : Kind} {options alternatives : List Node}
    (hopening : Known tokens opening) (htype : opening.type ∈ openingTypes)
    (hkind : kind ∈ [Kind.block, .treeBegin])
    (hoptions : ∀ node ∈ options, Whole tokens node ∧ node.kind ≠ .block)
    (hwaiting : ∀ node ∈ alternatives, Waiting tokens node) :
    Whole tokens (((Node.ofToken kind opening).addChildren (options ++ alternatives)).anchor
      opening) := by
  have hverbatim : Kind.verbatim kind = true := by
    simp only [List.mem_cons, List.not_mem_nil, or_false] at hkind
    rcases hkind with rfl | rfl <;> rfl
  constructor
  · refine ⟨?_, opening, hopening.at_index, rfl, rfl, rfl, shows_of_verbatim hverbatim rfl⟩
    rintro ⟨hfree, -⟩
    cases hfree
    simp at hkind
  · refine linkedBelow_iff.2 fun child hchild => ?_
    rw [Node.anchor_children, List.mem_map] at hchild
    obtain ⟨node, hmember, rfl⟩ := hchild
    have hnode : node ∈ options ++ alternatives := hmember
    rcases List.mem_append.1 hnode with hnode | hnode
    · obtain ⟨hwhole, hblock⟩ := hoptions node hnode
      rw [hwhole.owned.settle_eq]
      exact ⟨hwhole.owned.linked fun hkind => absurd hkind hblock, hwhole.below⟩
    · exact (hwaiting node hnode).settle hopening htype hkind rfl

theorem waiting_alternative {elements : List Node}
    (h : ∀ element ∈ elements, Whole tokens element) :
    Waiting tokens (Assemble.alternative (elements.map .node)) := by
  cases elements with
  | nil => exact ⟨rfl, .inl ⟨rfl, rfl⟩⟩
  | cons first rest =>
      obtain ⟨token, htoken, hindex, hline, hcolumn, -⟩ := (h first List.mem_cons_self).owned.token
      rw [Assemble.alternative_cons]
      refine ⟨rfl, .inr (whole_of_children ?_ ?_)⟩
      · exact ⟨by simp, token, htoken, hindex, hline, hcolumn, rfl⟩
      · exact fun child hchild => ⟨h child hchild, by simp⟩

/-! ## Nodes of rules -/

/-- What is linked in the node of a rule.  The head of a grammar gets more
children; alternatives and the block around them are not in their place yet. -/
def Placed (tokens : List Token) : Rule → Node → Prop
  | .grammarHead => fun node =>
      Owned tokens node ∧ ∀ child ∈ node.children, Whole tokens child ∧ child.kind ≠ .block
  | .altList => fun node => node.text = "BLOCK" ∧ ∀ child ∈ node.children, Waiting tokens child
  | .alternative => Waiting tokens
  | _ => Whole tokens

def PlacedIn (tokens : List Token) (rule : Rule) (own : List Token) (node : Node) : Prop :=
  (∀ token ∈ own, Known tokens token) → Placed tokens rule node

section Parts

variable {rule : Rule} {own : List Token} {nodes : List Node}

theorem Each.placed (h : Each (Kinded (PlacedIn tokens) rule) own nodes)
    (hown : ∀ token ∈ own, Known tokens token) :
    ∀ node ∈ nodes, Placed tokens rule node ∧ node.kind ∈ rule.kinds :=
  h.forall_mem (fun hpart htokens => ⟨hpart.1 htokens, hpart.2⟩) hown

theorem Maybe.placed (h : Maybe (Kinded (PlacedIn tokens) rule) own nodes)
    (hown : ∀ token ∈ own, Known tokens token) :
    ∀ node ∈ nodes, Placed tokens rule node ∧ node.kind ∈ rule.kinds :=
  h.forall_mem (fun hpart htokens => ⟨hpart.1 htokens, hpart.2⟩) hown

theorem Each.placedAfter {sign : Mark}
    (h : Each (After sign (Kinded (PlacedIn tokens) rule)) own nodes)
    (hown : ∀ token ∈ own, Known tokens token) : ∀ node ∈ nodes, Placed tokens rule node := by
  refine h.forall_mem (fun hafter htokens => ?_) hown
  obtain ⟨rest, hrest, hpart⟩ := hafter.inner
  exact hpart.1 fun token htoken => htokens token (hrest htoken)

theorem Maybe.placedBefore {sign : Mark}
    (h : Maybe (Before sign (Kinded (PlacedIn tokens) rule)) own nodes)
    (hown : ∀ token ∈ own, Known tokens token) :
    ∀ node ∈ nodes, Placed tokens rule node ∧ node.kind ∈ rule.kinds := by
  refine h.forall_mem (fun hbefore htokens => ?_) hown
  obtain ⟨rest, hrest, hpart⟩ := hbefore.inner
  exact ⟨hpart.1 fun token htoken => htokens token (hrest htoken), hpart.2⟩

theorem InOrder.placed (h : InOrder (Kinded (PlacedIn tokens)) headParts own nodes)
    (hown : ∀ token ∈ own, Known tokens token) :
    ∀ node ∈ nodes, Whole tokens node ∧ node.kind ≠ .block := by
  refine h.forall_mem (fun rule hrule own node hpart htokens => ?_) hown
  have hwhole := hpart.1 htokens
  have hkind := hpart.2
  simp only [headParts, List.mem_cons, List.not_mem_nil, or_false] at hrule
  rcases hrule with rfl | rfl | rfl | rfl | rfl | rfl <;>
    exact ⟨hwhole, fun hblock => by simp [hblock, Rule.kinds] at hkind⟩

theorem linked_of_placed (hrule : Placed tokens rule = Whole tokens)
    (hkinds : Kind.block ∉ rule.kinds)
    (h : ∀ node ∈ nodes, Placed tokens rule node ∧ node.kind ∈ rule.kinds) (above : Option Node) :
    ∀ node ∈ nodes, Linked tokens above node ∧ LinkedBelow tokens node := by
  rw [hrule] at h
  intro node hnode
  obtain ⟨hwhole, hkind⟩ := h node hnode
  exact hwhole.linked (ne_of_mem_of_not_mem hkind hkinds) above

theorem whole_addChildren {kind : Kind} {token : Token} (h : Known tokens token)
    (hkind : Kind.verbatim kind = true) (hrule : kind ≠ .rule)
    (hnodes : ∀ node ∈ nodes, Whole tokens node) :
    Whole tokens ((Node.ofToken kind token).addChildren nodes) :=
  whole_of_children (owned_ofToken h hkind nodes) fun node hnode =>
    ⟨hnodes node hnode, fun _ => hrule⟩

theorem whole_pair {sign : Token} {left right : Node} (h : Known tokens sign)
    (hleft : Whole tokens left) (hright : Whole tokens right) :
    Whole tokens (Assemble.pair sign left right) :=
  whole_addChildren h rfl (by decide) (by simpa using ⟨hleft, hright⟩)

end Parts

theorem verbatim_literalKind (text : String) : Kind.verbatim (literalKind text) = true := by
  rcases literalKind_cases text with h | h <;> rw [h] <;> rfl

theorem verbatim_optionKind (value : Token) :
    Kind.verbatim (Assemble.optionKind value) = true := by
  unfold Assemble.optionKind
  split
  · exact verbatim_literalKind _
  all_goals rfl

theorem verbatim_of_mem_grammars {kind : Kind} (h : kind ∈ Kind.grammars) :
    Kind.verbatim kind = true ∧ kind ≠ .rule := by
  revert kind
  decide

theorem verbatim_modifier {type : Terminal} {kind : Kind} (h : modifierKind? type = some kind) :
    Kind.verbatim kind = true := by
  have hkind := modifierKind?_mem h
  clear h
  revert kind
  decide

theorem whole_atom {token : Token} {node : Node} (h : Known tokens token)
    (hnode : Assemble.atom [.token token] = some node) : Whole tokens node := by
  rcases atom_cases hnode with ⟨kind, hkind, haction, hargs, rfl⟩ | ⟨htype, rfl⟩ | ⟨htype, rfl⟩
  · refine whole_ofToken h ?_
    clear hnode
    revert kind
    decide
  · exact whole_action h htype
  · exact whole_argAction h htype

theorem placed_grammarFile {own : List Token} {node : Node}
    (h : Assembles (Kinded (PlacedIn tokens)) .grammarFile own node) :
    PlacedIn tokens .grammarFile own node := by
  intro hown
  cases h with
  | @grammarFile head before rules root sections parts hhead hsections hrules =>
      simp only [List.forall_mem_append] at hown
      obtain ⟨howned, hname⟩ := hhead.1 hown.1.1
      have hbefore := hsections.placed hown.1.2
      have hafter := hrules.placed hown.2
      have hkind : root.kind ≠ .rule := (verbatim_of_mem_grammars hhead.2).2
      have hrooted : Owned tokens (root.addChildren (sections ++ parts)) := by
        refine ⟨?_, howned.token⟩
        rintro ⟨hfree, -⟩
        have hgrammar : root.kind ∈ Kind.grammars := hhead.2
        rw [show root.kind = .alternative from hfree] at hgrammar
        exact absurd hgrammar (by decide)
      refine whole_of_children hrooted ?_
      simp only [Node.addChildren_children, List.forall_mem_append]
      refine ⟨fun child hchild => ⟨(hname child hchild).1, fun _ => hkind⟩,
        fun child hchild => ⟨(hbefore child hchild).1, fun _ => hkind⟩,
        fun child hchild => ⟨(hafter child hchild).1, fun _ => hkind⟩⟩

theorem placed_ruleSpec {own : List Token} {node : Node}
    (h : Assembles (Kinded (PlacedIn tokens)) .ruleSpec own node) :
    PlacedIn tokens .ruleSpec own node := by
  intro hown
  cases h with
  | @ruleSpec name colon semicolon body block modifier parts actions catches final hmodifier _
      hparts hactions hcolon hbody hsemicolon hcatches hfinal =>
      simp only [List.forall_mem_append, List.forall_mem_cons] at hown
      obtain ⟨⟨⟨⟨⟨hwords, hname, hheading⟩, hsections⟩, hsign, hinner⟩, hend, hhandlers⟩, hlast⟩ :=
        hown
      obtain ⟨htext, hwaiting⟩ := hbody.1 hinner
      have hkind : block.kind = .block := by simpa [Rule.kinds] using hbody.2
      refine ⟨owned_ofToken hname rfl _, linkedBelow_iff.2 ?_⟩
      simp only [Node.addChildren_children, Node.ofToken_children, List.nil_append,
        List.forall_mem_append, List.forall_mem_cons]
      refine ⟨⟨⟨⟨⟨⟨?_, ?_⟩, ?_⟩, ?_⟩, ?_, ?_⟩, ?_⟩, ?_, ?_⟩
      · exact (whole_ofToken hname rfl).linked (by simp) _
      · exact linked_of_placed rfl (by decide) (hmodifier.placed hwords) _
      · intro node hnode
        obtain ⟨hwhole, hpart⟩ := hparts.placed hheading node hnode
        exact hwhole.linked hpart _
      · exact linked_of_placed rfl (by decide) (hactions.placed hsections) _
      · exact linked_body rfl hsign hcolon hkind htext hwaiting
      · exact linked_of_placed rfl (by decide) (hcatches.placed hhandlers) _
      · exact linked_of_placed rfl (by decide) (hfinal.placed hlast) _
      · have hwhole : Whole tokens (endNode semicolon) :=
          whole_leaf ⟨by simp [endNode], semicolon, hend.at_index, rfl, rfl, rfl, rfl⟩ rfl
        exact hwhole.linked (by simp [endNode]) _
      · simp

theorem placed_subrule {own : List Token} {node : Node}
    (h : Assembles (Kinded (PlacedIn tokens)) .subrule own node) :
    PlacedIn tokens .subrule own node := by
  intro hown
  cases h with
  | @subrule opening closing kind options body block hopening hoptions hbody =>
      simp only [List.forall_mem_append, List.forall_mem_cons] at hown
      obtain ⟨⟨⟨hknown, hsettings⟩, hinner⟩, -⟩ := hown
      have htypes : ∀ type ∈ [Terminal.mark .treeBegin, .mark .leftParen], type ∈ openingTypes := by
        decide
      obtain ⟨htype, hkind⟩ := opening_mem hopening
      refine whole_subrule hknown (htypes _ htype) hkind (fun node hnode => ?_) (hbody.1 hinner).2
      obtain ⟨hwhole, hoption⟩ := hoptions.placedBefore hsettings node hnode
      exact ⟨hwhole, ne_of_mem_of_not_mem hoption (by decide)⟩

theorem inductive_placed : Inductive (PlacedIn tokens) := by
  intro rule own node h hown
  have hnode := h
  cases h with
  | grammarFile => exact placed_grammarFile hnode hown
  | @grammarHead keyword name semicolon =>
      simp only [List.forall_mem_cons] at hown
      obtain ⟨hkeyword, hname, -⟩ := hown
      exact ⟨owned_ofToken hkeyword rfl [.ofToken .id name],
        by simpa using whole_ofToken hname rfl⟩
  | @typedHead type keyword name semicolon kind _ hkind =>
      simp only [List.forall_mem_cons] at hown
      obtain ⟨htype, -, hname, -⟩ := hown
      have hverbatim := (verbatim_of_mem_grammars (grammarKind?_mem hkind)).1
      exact ⟨owned_ofToken htype hverbatim [.ofToken .id name],
        by simpa using whole_ofToken hname rfl⟩
  | prequel hrule hpart =>
      have hplaced := hpart.1 hown
      simp only [List.mem_cons, List.not_mem_nil, or_false] at hrule
      rcases hrule with rfl | rfl | rfl | rfl | rfl <;> exact hplaced
  | optionsSpec _ _ _ hentries =>
      simp only [List.forall_mem_append, List.forall_mem_cons] at hown
      refine whole_addChildren hown.1.1 rfl (by decide) fun entry hentry => ?_
      exact (hentries.placed hown.1.2.2 entry hentry).1
  | option =>
      simp only [List.forall_mem_cons] at hown
      obtain ⟨hkey, hsign, hvalue, -⟩ := hown
      exact whole_pair hsign (whole_ofToken hkey rfl)
        (whole_ofToken hvalue (verbatim_optionKind _))
  | importSpec _ hfirst hmore =>
      simp only [List.forall_mem_append, List.forall_mem_cons] at hown
      obtain ⟨⟨⟨hkeyword, hnames⟩, hothers⟩, -⟩ := hown
      refine whole_addChildren hkeyword rfl (by decide) (List.forall_mem_cons.2 ⟨?_, ?_⟩)
      · exact hfirst.1 hnames
      · exact hmore.placedAfter hothers
  | delegate =>
      simp only [List.forall_mem_cons] at hown
      exact whole_ofToken hown.1 rfl
  | renamed =>
      simp only [List.forall_mem_cons] at hown
      obtain ⟨hshort, hsign, hname, -⟩ := hown
      exact whole_pair hsign (whole_ofToken hshort rfl) (whole_ofToken hname rfl)
  | tokensSpec _ _ _ hentries =>
      simp only [List.forall_mem_append, List.forall_mem_cons] at hown
      refine whole_addChildren hown.1.1 rfl (by decide) fun entry hentry => ?_
      exact (hentries.placed hown.1.2.2 entry hentry).1
  | imaginary =>
      simp only [List.forall_mem_cons] at hown
      exact whole_ofToken hown.1 rfl
  | tokenSpec =>
      simp only [List.forall_mem_cons] at hown
      obtain ⟨hname, hsign, hliteral, -⟩ := hown
      exact whole_pair hsign (whole_ofToken hname rfl)
        (whole_ofToken hliteral (verbatim_literalKind _))
  | grammarScope _ _ haction =>
      simp only [List.forall_mem_cons] at hown
      obtain ⟨hkeyword, hname, hblock, -⟩ := hown
      exact whole_addChildren hkeyword rfl (by decide)
        (by simpa using ⟨whole_ofToken hname rfl, whole_action hblock haction⟩)
  | actionSpec _ _ haction =>
      simp only [List.forall_mem_cons] at hown
      obtain ⟨hsign, hname, hblock, -⟩ := hown
      exact whole_addChildren hsign rfl (by decide)
        (by simpa using ⟨whole_ofToken hname rfl, whole_action hblock haction⟩)
  | scopedAction _ _ _ _ haction =>
      simp only [List.forall_mem_cons] at hown
      obtain ⟨hsign, hscope, -, hname, hblock, -⟩ := hown
      exact whole_addChildren hsign rfl (by decide) (by simpa using
        ⟨whole_ofToken hscope rfl, whole_ofToken hname rfl, whole_action hblock haction⟩)
  | ruleSpec => exact placed_ruleSpec hnode hown
  | ruleModifier hkind =>
      simp only [List.forall_mem_cons] at hown
      exact whole_ofToken hown.1 (verbatim_modifier hkind)
  | ruleBang =>
      simp only [List.forall_mem_cons] at hown
      exact whole_ofToken hown.1 rfl
  | ruleArgs hargs =>
      simp only [List.forall_mem_cons] at hown
      exact whole_argAction hown.1 hargs
  | returnsSpec _ hargs =>
      simp only [List.forall_mem_cons] at hown
      obtain ⟨hkeyword, hblock, -⟩ := hown
      exact whole_addChildren hkeyword rfl (by decide)
        (by simpa using whole_argAction hblock hargs)
  | throwsSpec _ _ hnames =>
      simp only [List.forall_mem_cons] at hown
      obtain ⟨hkeyword, hname, hothers⟩ := hown
      refine whole_addChildren hkeyword rfl (by decide) (List.forall_mem_map.2 ?_)
      refine List.forall_mem_cons.2 ⟨whole_ofToken hname rfl, fun other hother => ?_⟩
      exact whole_ofToken (hothers other (hnames.subset hother)) rfl
  | ruleScope _ _ hactions hnames =>
      simp only [List.forall_mem_append, List.forall_mem_cons] at hown
      obtain ⟨⟨hkeyword, hblocks⟩, hothers⟩ := hown
      refine whole_addChildren hkeyword rfl (by decide) (List.forall_mem_append.2 ⟨?_, ?_⟩)
      · exact List.forall_mem_map.2 fun action haction =>
          whole_action (hblocks action haction) (hactions action haction)
      · exact List.forall_mem_map.2 fun name hname =>
          whole_ofToken (hothers name (hnames.subset hname)) rfl
  | catchClause _ hargs haction =>
      simp only [List.forall_mem_cons] at hown
      obtain ⟨hkeyword, hfirst, hsecond, -⟩ := hown
      exact whole_addChildren hkeyword rfl (by decide)
        (by simpa using ⟨whole_argAction hfirst hargs, whole_action hsecond haction⟩)
  | finallyClause _ haction =>
      simp only [List.forall_mem_cons] at hown
      obtain ⟨hkeyword, hblock, -⟩ := hown
      exact whole_addChildren hkeyword rfl (by decide)
        (by simpa using whole_action hblock haction)
  | altList hfirst hmore =>
      simp only [List.forall_mem_append] at hown
      exact ⟨rfl, List.forall_mem_cons.2 ⟨hfirst.1 hown.1, hmore.placedAfter hown.2⟩⟩
  | alternative helements =>
      exact waiting_alternative fun element helement => (helements.placed hown element helement).1
  | element hrule hpart =>
      have hplaced := hpart.1 hown
      simp only [List.mem_cons, List.not_mem_nil, or_false] at hrule
      rcases hrule with rfl | rfl <;> exact hplaced
  | subrule => exact placed_subrule hnode hown
  | atom hnode =>
      simp only [List.forall_mem_cons] at hown
      exact whole_atom hown.1 hnode

end Tokens

theorem Source.known {text : String} {file : Option String} {source : Source}
    (h : Source.parse text file = .ok source) {token : Token}
    (htoken : token ∈ source.tokens.toList) : Known source.tokens.toList token := by
  have hcovers := Source.covers h
  refine ⟨?_, hcovers.matched htoken⟩
  obtain ⟨place, hplace⟩ := List.mem_iff_getElem?.1 htoken
  have hindex := hcovers.index_eq hplace
  rw [hindex, Nat.zero_add, hplace]

/-- Nodes and tokens correspond.  Every node is linked: exactly the alternatives
without children have no token, and they stand where their block is opened; every
other node stands at the place of its token and shows its text.  Every token with
a text of its own has exactly one leaf. -/
theorem Source.nodes_linked {text : String} {file : Option String} {source : Source}
    (h : Source.parse text file = .ok source) :
    Linked source.tokens.toList none source.root ∧
      (∀ parent ∈ source.root.preorder, ∀ child ∈ parent.children,
        Linked source.tokens.toList (some parent) child) ∧
      ∀ token ∈ source.tokens.toList, token.type ∈ contentTypes →
        source.root.preorder.countP
          (fun node => node.children.isEmpty && node.tokenIndex == (token.index : Int)) = 1 := by
  have hwhole : Whole source.tokens.toList source.root :=
    Source.holds_root inductive_placed h fun _ htoken => Source.known h htoken
  refine ⟨hwhole.owned.linked (by simp), hwhole.below, ?_⟩
  exact fun token htoken htype => Source.leafCount_eq_one h htoken htype

/-- A grammar with subrules, blocks in brackets and an empty alternative. -/
def Linked.sampleText : String :=
  "grammar g;\na\n    : (b | \x7bc\x7d)? ^(D[e] 'f')\n    |\n    ;\n"

theorem Source.nodes_linked_subrules :
    ∃ source, Source.parse Linked.sampleText none = .ok source ∧
      Linked source.tokens.toList none source.root ∧
      (∀ parent ∈ source.root.preorder, ∀ child ∈ parent.children,
        Linked source.tokens.toList (some parent) child) ∧
      ∀ token ∈ source.tokens.toList, token.type ∈ contentTypes →
        source.root.preorder.countP
          (fun node => node.children.isEmpty && node.tokenIndex == (token.index : Int)) = 1 := by
  have hsome : (Source.parse Linked.sampleText none).toOption.isSome = true := by
    decide +kernel
  obtain ⟨source, hsource⟩ := Source.exists_of_isSome hsome
  exact ⟨source, hsource, Source.nodes_linked hsource⟩

end GrammarLint
