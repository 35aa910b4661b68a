import GrammarLint.Proofs.Places
import GrammarLint.Proofs.Shape
import GrammarLint.Walker.Basic

/-!
# What checks rely on

The checks look at rules, at blocks of options and tokens, and at named sections.
In the tree of a source these have the children that the checks take them to have,
and the colon and the semicolon of every rule come after another token.
-/

namespace GrammarLint

open Grammar Text

namespace Shape

/-! ## Nodes that checks are told about -/

def watchedKinds : List Kind :=
  [.rule, .options, .tokens, .ampersand]

/-- A node that is no rule, and has the shape that the checks expect of its kind. -/
structure Plain (node : Node) : Prop where
  not_rule : node.kind ≠ .rule
  options : node.kind = .options → Options node
  tokens : node.kind = .tokens → Tokens node
  named : node.kind = .ampersand → NamedAction node

def PlainBelow (node : Node) : Prop :=
  ∀ below ∈ node.preorder, Plain below

theorem plainBelow_iff {node : Node} :
    PlainBelow node ↔ Plain node ∧ ∀ child ∈ node.children, PlainBelow child :=
  Node.forall_mem_preorder

section Nodes

variable {node : Node}

theorem plain_of_kind {kinds : List Kind} (hkind : node.kind ∈ kinds)
    (hkinds : ∀ kind ∈ kinds, kind ∉ watchedKinds) : Plain node := by
  have hunwatched := hkinds node.kind hkind
  constructor <;> intro hwatched <;> simp [hwatched, watchedKinds] at hunwatched

theorem plainBelow_of_children {kinds : List Kind} (hkind : node.kind ∈ kinds)
    (hkinds : ∀ kind ∈ kinds, kind ∉ watchedKinds)
    (hchildren : ∀ child ∈ node.children, PlainBelow child) : PlainBelow node :=
  plainBelow_iff.2 ⟨plain_of_kind hkind hkinds, hchildren⟩

theorem Leaf.plainBelow {kinds : List Kind} (h : Leaf kinds node)
    (hkinds : ∀ kind ∈ kinds, kind ∉ watchedKinds) : PlainBelow node := by
  refine plainBelow_of_children h.1 hkinds ?_
  simp [h.2]

theorem Pair.plainBelow {left right : List Kind} (h : Pair left right node)
    (hleft : ∀ kind ∈ left, kind ∉ watchedKinds) (hright : ∀ kind ∈ right, kind ∉ watchedKinds) :
    PlainBelow node := by
  obtain ⟨hkind, key, value, hchildren, hkey, hvalue⟩ := h
  apply plainBelow_of_children (List.mem_singleton.2 hkind) (by decide)
  simp [hchildren, hkey.plainBelow hleft, hvalue.plainBelow hright]

theorem InTurn.forall_mem {shapes : List (Node → Prop)} {nodes : List Node}
    {holds : Node → Prop} (h : InTurn shapes nodes)
    (hholds : ∀ shape ∈ shapes, ∀ node, shape node → holds node) :
    ∀ node ∈ nodes, holds node := by
  induction h with
  | nil => simp
  | skip _ ih => exact ih (List.forall_mem_cons.1 hholds).2
  | take hfirst _ ih =>
      obtain ⟨hshape, hshapes⟩ := List.forall_mem_cons.1 hholds
      exact List.forall_mem_cons.2 ⟨hshape _ hfirst, ih hshapes⟩

/-! ## Blocks and sections -/

theorem Options.plainBelow (h : Options node) : PlainBelow node := by
  refine plainBelow_iff.2 ⟨?_, fun entry hentry => ?_⟩
  · constructor <;> simp [h.1, h]
  · exact (h.2 entry hentry).plainBelow (by decide) (by decide)

theorem Tokens.plainBelow (h : Tokens node) : PlainBelow node := by
  refine plainBelow_iff.2 ⟨?_, fun entry hentry => ?_⟩
  · constructor <;> simp [h.1, h]
  · rcases h.2 entry hentry with hleaf | hpair
    · exact hleaf.plainBelow (by decide)
    · exact hpair.plainBelow (by decide) (by decide)

theorem NamedAction.plainBelow (h : NamedAction node) : PlainBelow node := by
  refine plainBelow_iff.2 ⟨?_, ?_⟩
  · constructor <;> simp [h.1, h]
  · obtain ⟨-, scope, name, action, hchildren, hscope, hname, haction⟩ := h
    have hscopes : ∀ child ∈ scope, PlainBelow child :=
      hscope.forall_mem (by simpa using fun child hchild => Leaf.plainBelow hchild (by decide))
    simp only [hchildren, List.forall_mem_append, List.forall_mem_cons]
    exact ⟨hscopes, hname.plainBelow (by decide), haction.plainBelow (by decide), by simp⟩

theorem Imports.plainBelow (h : Imports node) : PlainBelow node := by
  obtain ⟨hkind, -, hentries⟩ := h
  refine plainBelow_of_children (List.mem_singleton.2 hkind) (by decide) fun entry hentry => ?_
  rcases hentries entry hentry with hleaf | hpair
  · exact hleaf.plainBelow (by decide)
  · exact hpair.plainBelow (by decide) (by decide)

theorem GrammarScope.plainBelow (h : GrammarScope node) : PlainBelow node := by
  obtain ⟨hkind, name, action, hchildren, hname, haction⟩ := h
  apply plainBelow_of_children (List.mem_singleton.2 hkind) (by decide)
  simp [hchildren, hname.plainBelow (by decide), haction.plainBelow (by decide)]

theorem Section.plainBelow (h : Section node) : PlainBelow node := by
  rcases h with h | h | h | h | h
  all_goals exact h.plainBelow

/-! ## Rules -/

theorem Element.plainBelow (h : Element node) : PlainBelow node := by
  induction h with
  | atom hleaf => exact hleaf.plainBelow (by decide)
  | @subrule node options alternatives hkind hchildren hoptions _ hkinds _ ih =>
      have hblock : node.kind ∈ [Kind.block, .treeBegin] := by simpa using hkind
      apply plainBelow_of_children hblock (by decide)
      rw [hchildren, List.forall_mem_append]
      refine ⟨hoptions.forall_mem (by simpa using fun _ => Options.plainBelow), ?_⟩
      intro alternative hmember
      exact plainBelow_of_children (List.mem_singleton.2 (hkinds alternative hmember)) (by decide)
        (ih alternative hmember)

theorem Body.plainBelow (h : Body node) : PlainBelow node := by
  obtain ⟨hkind, -, halternatives⟩ := h
  refine plainBelow_of_children (List.mem_singleton.2 hkind) (by decide) fun child hchild => ?_
  obtain ⟨hkind, helements⟩ := halternatives child hchild
  exact plainBelow_of_children (List.mem_singleton.2 hkind) (by decide)
    fun element helement => (helements element helement).plainBelow

theorem Returns.plainBelow (h : Returns node) : PlainBelow node := by
  obtain ⟨hkind, args, hchildren, hargs⟩ := h
  apply plainBelow_of_children (List.mem_singleton.2 hkind) (by decide)
  simp [hchildren, hargs.plainBelow (by decide)]

theorem Throws.plainBelow (h : Throws node) : PlainBelow node := by
  obtain ⟨hkind, -, hnames⟩ := h
  exact plainBelow_of_children (List.mem_singleton.2 hkind) (by decide)
    fun name hname => (hnames name hname).plainBelow (by decide)

theorem RuleScope.plainBelow (h : RuleScope node) : PlainBelow node := by
  obtain ⟨hkind, action, names, hchildren, haction, hnames⟩ := h
  apply plainBelow_of_children (List.mem_singleton.2 hkind) (by decide)
  rw [hchildren, List.forall_mem_append]
  constructor
  · exact haction.forall_mem
      (by simpa using fun child hchild => Leaf.plainBelow hchild (by decide))
  · exact fun name hname => (hnames name hname).plainBelow (by decide)

theorem Catch.plainBelow (h : Catch node) : PlainBelow node := by
  obtain ⟨hkind, args, action, hchildren, hargs, haction⟩ := h
  apply plainBelow_of_children (List.mem_singleton.2 hkind) (by decide)
  simp [hchildren, hargs.plainBelow (by decide), haction.plainBelow (by decide)]

theorem Finally.plainBelow (h : Finally node) : PlainBelow node := by
  obtain ⟨hkind, action, hchildren, haction⟩ := h
  apply plainBelow_of_children (List.mem_singleton.2 hkind) (by decide)
  simp [hchildren, haction.plainBelow (by decide)]

theorem plainBelow_of_heading {nodes : List Node} (h : InTurn (Modifier :: heading) nodes) :
    ∀ part ∈ nodes, PlainBelow part := by
  refine h.forall_mem ?_
  simp only [heading, List.forall_mem_cons]
  exact ⟨fun _ hpart => Leaf.plainBelow hpart (by decide),
    fun _ hpart => Leaf.plainBelow hpart (by decide),
    fun _ hpart => Leaf.plainBelow hpart (by decide), fun _ => Returns.plainBelow,
    fun _ => Throws.plainBelow, fun _ => Options.plainBelow, fun _ => RuleScope.plainBelow,
    by simp⟩

theorem IsRule.plainBelow (h : IsRule node) : ∀ child ∈ node.children, PlainBelow child := by
  obtain ⟨-, name, head, sections, block, catches, final, ending, hchildren, hname, hhead,
    hsections, hblock, hcatches, hfinal, hending⟩ := h
  simp only [hchildren, List.forall_mem_append, List.forall_mem_cons]
  refine ⟨⟨⟨⟨⟨?_, ?_⟩, ?_⟩, ?_, ?_⟩, ?_⟩, ?_, by simp⟩
  · exact hname.plainBelow (by decide)
  · exact plainBelow_of_heading hhead
  · exact fun part hpart => (hsections part hpart).plainBelow
  · exact hblock.plainBelow
  · exact fun part hpart => (hcatches part hpart).plainBelow
  · exact hfinal.forall_mem (by simpa using fun _ => Finally.plainBelow)
  · exact hending.plainBelow (by decide)

theorem Root.rule_or_plain {root : Node} (h : Root root) (hnode : node ∈ root.preorder) :
    (node ∈ root.children ∧ IsRule node) ∨ Plain node := by
  obtain ⟨hkind, name, sections, rules, hchildren, hname, hsections, hrules⟩ := h
  rw [Node.preorder_eq] at hnode
  rcases List.mem_cons.1 hnode with rfl | hbelow
  · exact .inr (plain_of_kind hkind (by decide))
  · obtain ⟨child, hchild, hbelow⟩ := List.mem_flatMap.1 hbelow
    have hcases := hchild
    rw [hchildren, List.mem_append, List.mem_cons] at hcases
    rcases hcases with (rfl | hsection) | hrule
    · exact .inr (hname.plainBelow (by decide) node hbelow)
    · exact .inr ((hsections child hsection).plainBelow node hbelow)
    · rw [Node.preorder_eq] at hbelow
      rcases List.mem_cons.1 hbelow with rfl | hbelow
      · exact .inl ⟨hchild, hrules node hrule⟩
      · obtain ⟨part, hpart, hbelow⟩ := List.mem_flatMap.1 hbelow
        exact .inr ((hrules child hrule).plainBelow part hpart node hbelow)

end Nodes

end Shape

/-! ## Delimiters -/

/-- The body of the rule stands at a colon, and its end at a semicolon, of the tokens. -/
structure Delimited (tokens : List Token) (rule : Node) : Prop where
  colon : ∃ colon ∈ tokens, ∃ block : Node, colon.type = .mark .colon ∧
    rule.firstOfKind? .block = some (block.anchor colon)
  semicolon : ∃ semicolon ∈ tokens, semicolon.type = .mark .semicolon ∧
    rule.firstOfKind? .endOfRule = some (endNode semicolon)

theorem Delimited.mono {tokens more : List Token} {rule : Node} (h : Delimited tokens rule)
    (hmore : tokens ⊆ more) : Delimited more rule := by
  obtain ⟨⟨colon, hcolon, hblock⟩, semicolon, hsemicolon, hend⟩ := h
  exact ⟨⟨colon, hmore hcolon, hblock⟩, semicolon, hmore hsemicolon, hend⟩

def DelimitedIn : Rule → List Token → Node → Prop
  | .grammarFile => fun tokens node =>
      ∀ child ∈ node.children, child.kind = .rule → Delimited tokens child
  | .grammarHead => fun _ node => ∀ child ∈ node.children, child.kind ≠ .rule
  | .ruleSpec => Delimited
  | _ => fun _ _ => True

section Kinds

variable {holds : Rule → List Token → Node → Prop} {rule : Rule} {tokens : List Token}
  {nodes : List Node} {kind : Kind}

theorem Each.kind_ne (h : Each (Kinded holds rule) tokens nodes) (hkind : kind ∉ rule.kinds) :
    ∀ node ∈ nodes, node.kind ≠ kind := by
  rintro node hnode rfl
  obtain ⟨-, -, -, hmember⟩ := h.mem hnode
  exact hkind hmember

theorem Maybe.kind_ne (h : Maybe (Kinded holds rule) tokens nodes) (hkind : kind ∉ rule.kinds) :
    ∀ node ∈ nodes, node.kind ≠ kind := by
  rintro node hnode rfl
  obtain ⟨-, -, -, hmember⟩ := h.mem hnode
  exact hkind hmember

theorem InOrder.kind_ne {rules : List Rule} (h : InOrder (Kinded holds) rules tokens nodes)
    (hkind : ∀ rule ∈ rules, kind ∉ rule.kinds) : ∀ node ∈ nodes, node.kind ≠ kind := by
  rintro node hnode rfl
  obtain ⟨rule, hrule, -, -, -, hmember⟩ := h.mem hnode
  exact hkind rule hrule hmember

end Kinds

theorem Node.firstOfKind?_eq {node child : Node} {kind : Kind} (before after : List Node)
    (hchildren : node.children = before ++ child :: after) (hkind : child.kind = kind)
    (hbefore : ∀ other ∈ before, other.kind ≠ kind) : node.firstOfKind? kind = some child := by
  rw [firstOfKind?, hchildren, List.find?_eq_some_iff_append]
  exact ⟨by simp [hkind], before, after, rfl, by simpa using hbefore⟩

theorem inductive_delimited : Inductive DelimitedIn := by
  intro rule tokens node h
  cases h with
  | @grammarFile head before rules root sections parts hhead hsections hrules =>
      intro child hchild hkind
      rw [Node.addChildren_children, List.mem_append, List.mem_append] at hchild
      rcases hchild with hchild | hchild | hchild
      · exact absurd hkind (hhead.1 child hchild)
      · exact absurd hkind (hsections.kind_ne (by decide) child hchild)
      · obtain ⟨own, hown, hdelimited, -⟩ := hrules.mem hchild
        exact Delimited.mono hdelimited (List.subset_append_of_subset_right _ hown)
  | grammarHead => simp [DelimitedIn]
  | typedHead => simp [DelimitedIn]
  | @ruleSpec name colon semicolon body block modifier parts actions catches final hmodifier _
      hparts hactions hcolon hbody hsemicolon hcatches hfinal =>
      have hblock : block.kind = .block := by simpa [Rule.kinds] using hbody.2
      have hbefore : ∀ kind ∈ [Kind.block, .endOfRule],
          ∀ other ∈ Node.ofToken .id name :: modifier.2 ++ parts.2 ++ actions.2,
            other.kind ≠ kind := by
        intro kind hkind
        simp only [List.forall_mem_append, List.forall_mem_cons, Node.ofToken_kind]
        refine ⟨⟨⟨?_, hmodifier.kind_ne ?_⟩, hparts.kind_ne ?_⟩, hactions.kind_ne ?_⟩
        all_goals
          revert kind
          decide
      constructor
      · refine ⟨colon, by simp, block, hcolon, ?_⟩
        exact Node.firstOfKind?_eq (.ofToken .id name :: modifier.2 ++ parts.2 ++ actions.2)
          (catches.2 ++ final.2 ++ [endNode semicolon]) (by simp) hblock
          (hbefore .block (by decide))
      · refine ⟨semicolon, by simp, hsemicolon, ?_⟩
        refine Node.firstOfKind?_eq (.ofToken .id name :: modifier.2 ++ parts.2 ++ actions.2 ++
          block.anchor colon :: catches.2 ++ final.2) [] (by simp) rfl ?_
        rw [List.forall_mem_append, List.forall_mem_append]
        refine ⟨⟨hbefore .endOfRule (by decide), ?_⟩, hfinal.kind_ne (by decide)⟩
        exact List.forall_mem_cons.2 ⟨by simp [hblock], hcatches.kind_ne (by decide)⟩
  | _ => trivial

/-! ## Sources -/

/-- The node stands at a token with the sign, and there is a token before it. -/
structure Delimits (source : Source) (sign : Mark) (node : Node) : Prop where
  token : ∃ token ∈ source.tokens.toList, token.type = .mark sign ∧
    node.tokenIndex = token.index
  before : ∃ token, source.tokenBefore node = .ok (some token)

/-- What the checks take the nodes of a source to have.  Rules have both delimiters;
options are pairs, tokens are pairs or have no children, and sections have a name and an
action. -/
structure Checkable (source : Source) : Prop where
  rule : ∀ rule ∈ source.root.preorder, rule.kind = .rule → ∃ colon semicolon,
    rule.firstOfKind? .block = some colon ∧ rule.firstOfKind? .endOfRule = some semicolon ∧
      Delimits source .colon colon ∧ Delimits source .semicolon semicolon
  option : ∀ block ∈ source.root.preorder, block.kind = .options → ∀ entry ∈ block.children,
    entry.kind = .assign ∧ ∃ sides, entry.sides? = some sides
  token : ∀ block ∈ source.root.preorder, block.kind = .tokens → ∀ entry ∈ block.children,
    entry.children = [] ∨ entry.kind = .assign ∧ ∃ sides, entry.sides? = some sides
  named : ∀ part ∈ source.root.preorder, part.kind = .ampersand →
    ∃ parts, Check.Header.nameAndAction? part = some parts

theorem Shape.Pair.sides?_eq {left right : List Kind} {entry : Node}
    (h : Shape.Pair left right entry) :
    entry.kind = .assign ∧ ∃ sides, entry.sides? = some sides := by
  obtain ⟨hkind, key, value, hchildren, -⟩ := h
  exact ⟨hkind, (key, value), by rw [Node.sides?, hchildren]⟩

theorem Shape.NamedAction.nameAndAction?_eq {node : Node} (h : Shape.NamedAction node) :
    ∃ name action, Check.Header.nameAndAction? node = some (name, action) ∧
      Leaf [.action] action ∧ action ∈ node.children := by
  obtain ⟨-, scope, name, action, hchildren, hscope, -, haction⟩ := h
  refine ⟨name, action, ?_, haction, by simp [hchildren]⟩
  cases hscope with
  | skip hmore =>
      cases hmore
      simp [Check.Header.nameAndAction?, hchildren]
  | take _ hmore =>
      cases hmore
      simp [Check.Header.nameAndAction?, hchildren]

theorem Source.delimits {text : String} {file : Option String} {source : Source} {sign : Mark}
    {token : Token} {node : Node} (h : Source.parse text file = .ok source)
    (htoken : token ∈ source.tokens.toList) (htype : token.type = .mark sign)
    (hindex : node.tokenIndex = token.index) : Delimits source sign node := by
  have hplace : source.tokens.toList[token.index]? = some token :=
    (Source.known h htoken).at_index
  have hpositive : token.index ≠ 0 := by
    intro hzero
    obtain ⟨first, hfirst, hkind⟩ := Source.holds_root Shape.inductive_headed h (.inl rfl)
    rw [hzero, ← List.head?_eq_getElem?, hfirst] at hplace
    cases hplace
    simp [htype, Shape.headKinds] at hkind
  have hlength : token.index < source.tokens.size := by
    rw [← Array.length_toList]
    exact (List.getElem?_eq_some_iff.1 hplace).1
  have hbefore : (node.tokenIndex - 1).toNat < source.tokens.size := by omega
  refine ⟨⟨token, htoken, htype, hindex⟩, source.tokens[(node.tokenIndex - 1).toNat], ?_⟩
  rw [Source.tokenBefore, if_neg (by omega), Array.getElem?_eq_getElem hbefore]

theorem Source.checkable {text : String} {file : Option String} {source : Source}
    (h : Source.parse text file = .ok source) : Checkable source := by
  have hroot : Shape.Root source.root := Source.holds_root Shape.inductive_ofRule h
  have hplain {node : Node} (hnode : node ∈ source.root.preorder) (hkind : node.kind ≠ .rule) :
      Shape.Plain node := by
    rcases hroot.rule_or_plain hnode with ⟨-, hrule⟩ | hplain
    · exact absurd hrule.1 hkind
    · exact hplain
  constructor
  · intro rule hrule hkind
    rcases hroot.rule_or_plain hrule with ⟨hchild, -⟩ | hplain
    · obtain ⟨⟨colon, hcolon, block, htype, hblock⟩, semicolon, hsemicolon, htype', hend⟩ :=
        Source.holds_root inductive_delimited h rule hchild hkind
      exact ⟨_, _, hblock, hend, Source.delimits h hcolon htype rfl,
        Source.delimits h hsemicolon htype' rfl⟩
    · exact absurd hkind hplain.not_rule
  · intro block hblock hkind entry hentry
    exact (((hplain hblock (by simp [hkind])).options hkind).2 entry hentry).sides?_eq
  · intro block hblock hkind entry hentry
    rcases ((hplain hblock (by simp [hkind])).tokens hkind).2 entry hentry with hleaf | hpair
    · exact .inl hleaf.2
    · exact .inr hpair.sides?_eq
  · intro part hpart hkind
    obtain ⟨name, action, hparts, -⟩ :=
      ((hplain hpart (by simp [hkind])).named hkind).nameAndAction?_eq
    exact ⟨(name, action), hparts⟩

end GrammarLint
