import GrammarLint.Proofs.Composition

/-!
# The shape of trees

What the tree of a grammar looks like: which kinds of nodes there are below
each node, in which order and how many.  Every text that matches has a tree, and
the tree has this shape.
-/

namespace GrammarLint

open Grammar Text

namespace Shape

/-! ## Shapes of nodes -/

def Leaf (kinds : List Kind) (node : Node) : Prop :=
  node.kind ∈ kinds ∧ node.children = []

def Pair (left right : List Kind) (node : Node) : Prop :=
  node.kind = .assign ∧ ∃ key value, node.children = [key, value] ∧ Leaf left key ∧
    Leaf right value

/-- Nodes that have some of the shapes, in the order of the shapes and each at most once. -/
inductive InTurn : List (Node → Prop) → List Node → Prop where
  | nil : InTurn [] []
  | skip {shape : Node → Prop} {shapes : List (Node → Prop)} {nodes : List Node}
      (hmore : InTurn shapes nodes) : InTurn (shape :: shapes) nodes
  | take {shape : Node → Prop} {shapes : List (Node → Prop)} {node : Node} {nodes : List Node}
      (hfirst : shape node) (hmore : InTurn shapes nodes) :
      InTurn (shape :: shapes) (node :: nodes)

def Options (node : Node) : Prop :=
  node.kind = .options ∧ ∀ entry ∈ node.children,
    Pair [.id] [.id, .stringLiteral, .charLiteral, .integer] entry

def Tokens (node : Node) : Prop :=
  node.kind = .tokens ∧ ∀ entry ∈ node.children,
    Leaf [.tokenRef] entry ∨ Pair [.tokenRef] [.stringLiteral, .charLiteral] entry

def Imports (node : Node) : Prop :=
  node.kind = .imports ∧ node.children ≠ [] ∧ ∀ entry ∈ node.children,
    Leaf [.id] entry ∨ Pair [.id] [.id] entry

def GrammarScope (node : Node) : Prop :=
  node.kind = .scope ∧ ∃ name action, node.children = [name, action] ∧ Leaf [.id] name ∧
    Leaf [.action] action

def NamedAction (node : Node) : Prop :=
  node.kind = .ampersand ∧ ∃ scope name action, node.children = scope ++ [name, action] ∧
    InTurn [Leaf [.id]] scope ∧ Leaf [.id] name ∧ Leaf [.action] action

def Section (node : Node) : Prop :=
  Options node ∨ Imports node ∨ Tokens node ∨ GrammarScope node ∨ NamedAction node

/-- An atom, or a subrule with its options and alternatives.  An alternative has
elements as children. -/
inductive Element : Node → Prop where
  | atom {node : Node} (hleaf : Leaf atomKinds node) : Element node
  | subrule {node : Node} {options alternatives : List Node}
      (hkind : node.kind = .block ∨ node.kind = .treeBegin)
      (hchildren : node.children = options ++ alternatives) (hoptions : InTurn [Options] options)
      (hsome : alternatives ≠ [])
      (hkinds : ∀ alternative ∈ alternatives, alternative.kind = .alternative)
      (helements : ∀ alternative ∈ alternatives, ∀ element ∈ alternative.children,
        Element element) :
      Element node

def Alternative (node : Node) : Prop :=
  node.kind = .alternative ∧ ∀ element ∈ node.children, Element element

def Body (node : Node) : Prop :=
  node.kind = .block ∧ node.children ≠ [] ∧ ∀ alternative ∈ node.children, Alternative alternative

def Modifier : Node → Prop :=
  Leaf [.fragmentRule, .protectedRule, .publicRule, .privateRule]

def Returns (node : Node) : Prop :=
  node.kind = .returns ∧ ∃ args, node.children = [args] ∧ Leaf [.argAction] args

def Throws (node : Node) : Prop :=
  node.kind = .throws ∧ node.children ≠ [] ∧ ∀ name ∈ node.children, Leaf [.id] name

def RuleScope (node : Node) : Prop :=
  node.kind = .scope ∧ ∃ action names, node.children = action ++ names ∧
    InTurn [Leaf [.action]] action ∧ ∀ name ∈ names, Leaf [.id] name

def Catch (node : Node) : Prop :=
  node.kind = .catchClause ∧ ∃ args action, node.children = [args, action] ∧
    Leaf [.argAction] args ∧ Leaf [.action] action

def Finally (node : Node) : Prop :=
  node.kind = .finallyClause ∧ ∃ action, node.children = [action] ∧ Leaf [.action] action

def heading : List (Node → Prop) :=
  [Leaf [.bang], Leaf [.argAction], Returns, Throws, Options, RuleScope]

def IsRule (node : Node) : Prop :=
  node.kind = .rule ∧ ∃ name head sections block catches final ending,
    node.children = name :: head ++ sections ++ block :: catches ++ final ++ [ending] ∧
      Leaf [.id] name ∧ InTurn (Modifier :: heading) head ∧
      (∀ part ∈ sections, NamedAction part) ∧ Body block ∧ (∀ part ∈ catches, Catch part) ∧
      InTurn [Finally] final ∧ Leaf [.endOfRule] ending

def Root (node : Node) : Prop :=
  node.kind ∈ Kind.grammars ∧ ∃ name sections rules,
    node.children = name :: sections ++ rules ∧ Leaf [.id] name ∧
      (∀ part ∈ sections, Section part) ∧ ∀ rule ∈ rules, IsRule rule

def headKinds : List (Terminal × Kind) :=
  [(.keyword .grammar, .combinedGrammar), (.keyword .lexer, .lexerGrammar),
    (.keyword .parser, .parserGrammar), (.keyword .tree, .treeGrammar)]

def Headed (tokens : List Token) (root : Node) : Prop :=
  ∃ first, tokens.head? = some first ∧ (first.type, root.kind) ∈ headKinds

def OfRule : Rule → Node → Prop
  | .grammarFile => Root
  | .grammarHead => fun node =>
      node.kind ∈ Kind.grammars ∧ ∃ name, node.children = [name] ∧ Leaf [.id] name
  | .prequel => Section
  | .optionsSpec => Options
  | .option => Pair [.id] [.id, .stringLiteral, .charLiteral, .integer]
  | .importSpec => Imports
  | .delegate => fun node => Leaf [.id] node ∨ Pair [.id] [.id] node
  | .tokensSpec => Tokens
  | .tokenSpec => fun node =>
      Leaf [.tokenRef] node ∨ Pair [.tokenRef] [.stringLiteral, .charLiteral] node
  | .grammarScope => GrammarScope
  | .actionSpec => NamedAction
  | .ruleSpec => IsRule
  | .ruleModifier => Modifier
  | .ruleBang => Leaf [.bang]
  | .ruleArgs => Leaf [.argAction]
  | .returnsSpec => Returns
  | .throwsSpec => Throws
  | .ruleScope => RuleScope
  | .catchClause => Catch
  | .finallyClause => Finally
  | .altList => Body
  | .alternative => Alternative
  | .element => Element
  | .subrule => Element
  | .atom => Leaf atomKinds
  | _ => fun _ => True

/-! ## Nodes of tokens -/

theorem leaf_ofToken {kinds : List Kind} {kind : Kind} (token : Token) (h : kind ∈ kinds) :
    Leaf kinds (.ofToken kind token) :=
  ⟨h, rfl⟩

theorem leaf_ofBlock {kinds : List Kind} {kind : Kind} (token : Token) (h : kind ∈ kinds) :
    Leaf kinds (.ofBlock kind token) :=
  ⟨h, rfl⟩

theorem pair_pair {left right : List Kind} {first second : Node} (sign : Token)
    (hfirst : Leaf left first) (hsecond : Leaf right second) :
    Pair left right (Assemble.pair sign first second) :=
  ⟨rfl, first, second, rfl, hfirst, hsecond⟩

theorem literalKind_mem (text : String) :
    literalKind text ∈ [Kind.stringLiteral, .charLiteral] := by
  rcases literalKind_cases text with h | h <;> simp [h]

theorem optionKind_mem (value : Token) :
    Assemble.optionKind value ∈ [Kind.id, .stringLiteral, .charLiteral, .integer] := by
  unfold Assemble.optionKind
  split
  · exact List.mem_cons_of_mem _ (List.mem_append_left [.integer] (literalKind_mem _))
  all_goals decide

theorem leaf_atom {token : Token} {node : Node} (h : Assemble.atom [.token token] = some node) :
    Leaf atomKinds node := by
  rcases atom_cases h with ⟨kind, hkind, -, -, rfl⟩ | ⟨-, rfl⟩ | ⟨-, rfl⟩
  · exact leaf_ofToken token hkind
  · exact leaf_ofBlock token (by decide)
  · exact leaf_ofBlock token (by decide)

/-! ## Parts in a row -/

theorem inTurn_of_length {shape : Node → Prop} {nodes : List Node} (hcount : nodes.length ≤ 1)
    (h : ∀ node ∈ nodes, shape node) : InTurn [shape] nodes := by
  match nodes, hcount with
  | [], _ => exact .skip .nil
  | [node], _ => exact .take (h node List.mem_cons_self) .nil

theorem inTurn_of_maybe {part : List Token → Node → Prop} {shape : Node → Prop}
    {tokens : List Token} {nodes : List Node} (h : Maybe part tokens nodes)
    (hshape : ∀ tokens node, part tokens node → shape node) : InTurn [shape] nodes := by
  cases h with
  | none => exact .skip .nil
  | some hpart => exact .take (hshape _ _ hpart) .nil

theorem inTurn_of_inOrder {rules : List Rule} {tokens : List Token} {nodes : List Node}
    (h : InOrder (Kinded fun rule _ => OfRule rule) rules tokens nodes) :
    InTurn (rules.map OfRule) nodes := by
  induction h with
  | nil => exact .nil
  | skip _ ih => exact .skip ih
  | take hfirst _ ih => exact .take hfirst.1 ih

theorem InTurn.append {shapes others : List (Node → Prop)} {nodes more : List Node}
    (hfirst : InTurn shapes nodes) (hsecond : InTurn others more) :
    InTurn (shapes ++ others) (nodes ++ more) := by
  induction hfirst with
  | nil => exact hsecond
  | skip _ ih => exact .skip ih
  | take hnode _ ih => exact .take hnode ih

theorem alternative_settle {token : Token} {node : Node} :
    Alternative (node.settle token) ↔ Alternative node := by
  simp only [Alternative, Node.settle_kind, Node.settle_children]

theorem body_anchor {token : Token} {node : Node} (h : Body node) : Body (node.anchor token) := by
  obtain ⟨hkind, hsome, halternatives⟩ := h
  refine ⟨hkind, by simpa using hsome, ?_⟩
  intro alternative hmember
  obtain ⟨original, horiginal, rfl⟩ := List.mem_map.1 hmember
  exact alternative_settle.2 (halternatives original horiginal)

theorem options_settle {token : Token} {node : Node} (h : Options node) :
    Options (node.settle token) := by
  simpa only [Options, Node.settle_kind, Node.settle_children] using h

theorem element_subrule {opening : Token} {kind : Kind} {options : List Node} {block : Node}
    (hkind : kind = .block ∨ kind = .treeBegin) (hoptions : InTurn [Options] options)
    (hblock : Body block) :
    Element (((Node.ofToken kind opening).addChildren (options ++ block.children)).anchor
      opening) := by
  obtain ⟨-, hsome, halternatives⟩ := hblock
  have hsettled : ∀ alternative ∈ block.children.map (Node.settle opening),
      Alternative alternative := by
    intro alternative hmember
    obtain ⟨original, horiginal, rfl⟩ := List.mem_map.1 hmember
    exact alternative_settle.2 (halternatives original horiginal)
  refine @Element.subrule _ (options.map (Node.settle opening))
    (block.children.map (Node.settle opening)) hkind (by simp) ?_ (by simpa using hsome)
    (fun alternative hmember => (hsettled alternative hmember).1)
    (fun alternative hmember => (hsettled alternative hmember).2)
  cases hoptions with
  | skip hmore =>
      cases hmore
      exact .skip .nil
  | take hfirst hmore =>
      cases hmore
      exact .take (options_settle hfirst) .nil

theorem alternative_assemble {elements : List Node}
    (h : ∀ element ∈ elements, Element element) :
    Alternative (Assemble.alternative (elements.map .node)) := by
  unfold Assemble.alternative
  split
  · exact ⟨rfl, by simp⟩
  · rename_i first rest hnodes
    rw [Item.nodes_map_node] at hnodes
    exact ⟨rfl, hnodes ▸ h⟩

theorem inductive_ofRule : Inductive fun rule _ node => OfRule rule node := by
  intro rule tokens node h
  have hkind := h.kind_mem
  cases h with
  | @grammarFile _ _ _ _ sections parts hhead hsections hrules =>
      obtain ⟨-, name, hchildren, hname⟩ := hhead.1
      refine ⟨hkind, name, sections, parts, ?_, hname, ?_, ?_⟩
      · rw [Node.addChildren_children, hchildren, List.singleton_append, List.cons_append]
      · exact fun part hmember => (hsections.mem hmember).elim fun _ hpart => hpart.2.1
      · exact fun part hmember => (hrules.mem hmember).elim fun _ hpart => hpart.2.1
  | grammarHead => exact ⟨hkind, _, rfl, leaf_ofToken _ (by decide)⟩
  | typedHead => exact ⟨hkind, _, rfl, leaf_ofToken _ (by decide)⟩
  | prequel hrule hpart =>
      have hshape := hpart.1
      simp only [List.mem_cons, List.not_mem_nil, or_false] at hrule
      rcases hrule with rfl | rfl | rfl | rfl | rfl
      · exact .inl hshape
      · exact .inr (.inl hshape)
      · exact .inr (.inr (.inl hshape))
      · exact .inr (.inr (.inr (.inl hshape)))
      · exact .inr (.inr (.inr (.inr hshape)))
  | optionsSpec _ _ _ hentries =>
      exact ⟨rfl, fun entry hmember => (hentries.mem hmember).elim fun _ hpart => hpart.2.1⟩
  | option =>
      exact pair_pair _ (leaf_ofToken _ (by decide)) (leaf_ofToken _ (optionKind_mem _))
  | importSpec _ hfirst hmore =>
      refine ⟨rfl, by simp, ?_⟩
      intro entry hmember
      rcases List.mem_cons.1 hmember with rfl | hmember
      · exact hfirst.1
      · obtain ⟨_, -, _, _, _, hpart, -⟩ := hmore.mem hmember
        exact hpart.1
  | delegate => exact .inl (leaf_ofToken _ (by decide))
  | renamed =>
      exact .inr (pair_pair _ (leaf_ofToken _ (by decide)) (leaf_ofToken _ (by decide)))
  | tokensSpec _ _ _ hentries =>
      exact ⟨rfl, fun entry hmember => (hentries.mem hmember).elim fun _ hpart => hpart.2.1⟩
  | imaginary => exact .inl (leaf_ofToken _ (by decide))
  | tokenSpec =>
      exact .inr (pair_pair _ (leaf_ofToken _ (by decide)) (leaf_ofToken _ (literalKind_mem _)))
  | grammarScope =>
      exact ⟨rfl, _, _, rfl, leaf_ofToken _ (by decide), leaf_ofBlock _ (by decide)⟩
  | actionSpec =>
      exact ⟨rfl, [], _, _, rfl, .skip .nil, leaf_ofToken _ (by decide), leaf_ofBlock _ (by decide)⟩
  | scopedAction =>
      exact ⟨rfl, [_], _, _, rfl, .take (leaf_ofToken _ (by decide)) .nil,
        leaf_ofToken _ (by decide), leaf_ofBlock _ (by decide)⟩
  | @ruleSpec name colon semicolon _ block modifier parts actions catches final hmodifier _ hparts
      hactions _ hbody _ hcatches hfinal =>
      refine ⟨rfl, .ofToken .id name, modifier.2 ++ parts.2, actions.2, block.anchor colon,
        catches.2, final.2, endNode semicolon, by simp, leaf_ofToken _ (by decide), ?_, ?_, ?_,
        ?_, ?_, List.mem_singleton_self _, rfl⟩
      · have hmodified := inTurn_of_maybe hmodifier fun _ _ hpart => hpart.1
        exact hmodified.append (inTurn_of_inOrder hparts)
      · exact fun part hmember => (hactions.mem hmember).elim fun _ hpart => hpart.2.1
      · exact body_anchor hbody.1
      · exact fun part hmember => (hcatches.mem hmember).elim fun _ hpart => hpart.2.1
      · exact inTurn_of_maybe hfinal fun _ _ hpart => hpart.1
  | ruleModifier => exact ⟨hkind, rfl⟩
  | ruleBang => exact leaf_ofToken _ (by decide)
  | ruleArgs => exact leaf_ofBlock _ (by decide)
  | returnsSpec => exact ⟨rfl, _, rfl, leaf_ofBlock _ (by decide)⟩
  | throwsSpec =>
      refine ⟨rfl, by simp, ?_⟩
      intro name hmember
      obtain ⟨token, -, rfl⟩ := List.mem_map.1 hmember
      exact leaf_ofToken _ (by decide)
  | @ruleScope _ actions _ names _ hcount =>
      refine ⟨rfl, actions.map (.ofBlock .action), names.map (.ofToken .id), rfl,
        inTurn_of_length (by simpa using hcount) ?_, ?_⟩
      · intro action hmember
        obtain ⟨token, -, rfl⟩ := List.mem_map.1 hmember
        exact leaf_ofBlock _ (by decide)
      · intro name hmember
        obtain ⟨token, -, rfl⟩ := List.mem_map.1 hmember
        exact leaf_ofToken _ (by decide)
  | catchClause =>
      exact ⟨rfl, _, _, rfl, leaf_ofBlock _ (by decide), leaf_ofBlock _ (by decide)⟩
  | finallyClause => exact ⟨rfl, _, rfl, leaf_ofBlock _ (by decide)⟩
  | altList hfirst hmore =>
      refine ⟨rfl, by simp, ?_⟩
      intro alternative hmember
      rcases List.mem_cons.1 hmember with rfl | hmember
      · exact hfirst.1
      · obtain ⟨_, -, _, _, _, hpart, -⟩ := hmore.mem hmember
        exact hpart.1
  | alternative helements =>
      exact alternative_assemble fun element hmember =>
        (helements.mem hmember).elim fun _ hpart => hpart.2.1
  | element hrule hpart =>
      have hshape := hpart.1
      simp only [List.mem_cons, List.not_mem_nil, or_false] at hrule
      rcases hrule with rfl | rfl
      · exact hshape
      · exact .atom hshape
  | subrule hopening hoptions hbody hclosing =>
      refine element_subrule (by simpa [Rule.kinds] using hkind) ?_ hbody.1
      refine inTurn_of_maybe hoptions ?_
      rintro _ _ ⟨_, _, _, hpart, -⟩
      exact hpart.1
  | atom hnode => exact leaf_atom hnode

theorem inductive_headed : Inductive fun rule tokens node =>
    rule = .grammarFile ∨ rule = .grammarHead → Headed tokens node := by
  intro rule tokens node h hrule
  cases h with
  | @grammarFile head before rules _ _ _ hhead =>
      obtain ⟨first, hfirst, hkind⟩ := hhead.1 (.inr rfl)
      refine ⟨first, ?_, hkind⟩
      rw [List.append_assoc, List.head?_append, hfirst, Option.some_or]
  | @grammarHead keyword _ _ hkeyword =>
      exact ⟨keyword, rfl, by simp [hkeyword, headKinds]⟩
  | @typedHead type _ _ _ kind htype hkind =>
      refine ⟨type, rfl, ?_⟩
      simp only [List.mem_cons, List.not_mem_nil, or_false] at htype
      rcases htype with htype | htype | htype <;>
        · rw [htype] at hkind ⊢
          cases hkind
          simp [headKinds]
  | _ => simp at hrule

end Shape

/-- Every text that matches as a whole can be read, and its tree has the shape
of a grammar, of the kind that its first keyword says. -/
theorem Source.root_of_match {text : String} {tree : Tree}
    (h : Grammar.parse .grammarFile text.toList = .ok tree) (file : Option String) :
    ∃ source, Source.ofTree file text.toList tree = some source ∧
      Source.parse text file = .ok source ∧ Shape.Root source.root ∧
      Shape.Headed source.tokens.toList source.root := by
  have haccepts := (Grammar.parse_eq_ok_iff _ _ _).1 h
  obtain ⟨source, hsource, hparse⟩ := haccepts.source file
  exact ⟨source, hsource, hparse, Source.holds_root Shape.inductive_ofRule hparse,
    Source.holds_root Shape.inductive_headed hparse (.inl rfl)⟩

/-- A grammar with options, a renamed import, a tree with options, and handlers. -/
def Shape.sampleText : String :=
  "lexer grammar L; options \x7b k = 2; \x7d import A = B, C; fragment R[int i] scope S, T; " ++
    ": ^( options \x7b a = b; \x7d : 'c' | ) \x7bd\x7d ; finally \x7b \x7d"

theorem Source.root_of_match_sample :
    ∃ tree, Grammar.parse .grammarFile Shape.sampleText.toList = .ok tree ∧
      ∃ source, Source.ofTree none Shape.sampleText.toList tree = some source ∧
        Source.parse Shape.sampleText none = .ok source ∧ Shape.Root source.root ∧
        Shape.Headed source.tokens.toList source.root := by
  have hsome : (Grammar.parse .grammarFile Shape.sampleText.toList).toOption.isSome = true := by
    decide +kernel
  cases htree : Grammar.parse .grammarFile Shape.sampleText.toList with
  | error fault =>
      rw [htree] at hsome
      cases hsome
  | ok tree => exact ⟨tree, rfl, Source.root_of_match htree none⟩

end GrammarLint
