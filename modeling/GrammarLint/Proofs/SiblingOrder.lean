import Mathlib.Data.List.Forall2
import GrammarLint.Proofs.NodeLines
import GrammarLint.Proofs.Shape

/-!
# The order of siblings

The children of a node are in the order of their tokens, each with all that is
below it.  Only in the node of a rule two children are moved: the name comes first,
before the modifier, and the end of the rule comes last, after its handlers.
-/

namespace GrammarLint

open Grammar

/-! ## Nodes before nodes -/

def Node.indices (node : Node) : List Int :=
  (node.preorder.map Node.tokenIndex).filter (· ≠ -1)

def Node.Precedes (first second : Node) : Prop :=
  ∀ before ∈ first.indices, ∀ after ∈ second.indices, before < after

instance (first second : Node) : Decidable (first.Precedes second) :=
  inferInstanceAs (Decidable (∀ before ∈ first.indices, ∀ after ∈ second.indices, before < after))

def modifierKinds : List Kind :=
  [.fragmentRule, .protectedRule, .publicRule, .privateRule]

def handlerKinds : List Kind :=
  [.catchClause, .finallyClause]

/-- The children of a rule in order, but for its name and its end: only a modifier is
before the name, and only handlers of exceptions are after the end. -/
structure RuleOrdered (tokens : List Token) (rule : Node) (name semicolon : Token)
    (parts : List Node) : Prop where
  children_eq : rule.children = .ofToken .id name :: parts ++ [endNode semicolon]
  name_at : tokens[name.index]? = some name
  name_type : name.type = .identifier
  of_name : rule = (Node.ofToken .rule name).addChildren rule.children
  semicolon_at : tokens[semicolon.index]? = some semicolon
  semicolon_type : semicolon.type = .mark .semicolon
  ends : name.index < semicolon.index
  around_name : ∀ part ∈ parts,
    if part.kind ∈ modifierKinds then part.Precedes (.ofToken .id name)
    else (Node.ofToken .id name).Precedes part
  around_end : ∀ part ∈ parts,
    if part.kind ∈ handlerKinds then (endNode semicolon).Precedes part
    else part.Precedes (endNode semicolon)
  ordered : parts.Pairwise Node.Precedes

structure Ordered (tokens : List Token) (node : Node) : Prop where
  children : node.kind ≠ .rule → node.children.Pairwise Node.Precedes
  rule : node.kind = .rule →
    ∃ name semicolon parts, RuleOrdered tokens node name semicolon parts

section Indices

variable {node : Node} {token : Token} {kind : Kind} {index : Int}

theorem Node.mem_indices : index ∈ node.indices ↔
    (node.tokenIndex = index ∧ index ≠ -1) ∨ ∃ child ∈ node.children, index ∈ child.indices := by
  simp only [indices, List.mem_filter, List.mem_map, preorder_eq node, List.mem_cons,
    List.mem_flatMap, decide_eq_true_eq]
  constructor
  · rintro ⟨⟨below, rfl | ⟨child, hchild, hbelow⟩, rfl⟩, hindex⟩
    · exact .inl ⟨rfl, hindex⟩
    · exact .inr ⟨child, hchild, ⟨below, hbelow, rfl⟩, hindex⟩
  · rintro (⟨rfl, hindex⟩ | ⟨child, hchild, ⟨below, hbelow, rfl⟩, hindex⟩)
    · exact ⟨⟨node, .inl rfl, rfl⟩, hindex⟩
    · exact ⟨⟨below, .inr ⟨child, hchild, hbelow⟩, rfl⟩, hindex⟩

theorem Node.ne_of_mem_indices (h : index ∈ node.indices) : index ≠ -1 := by
  simpa using (List.mem_filter.1 h).2

theorem Node.indices_leaf (hindex : node.tokenIndex = token.index)
    (hchildren : node.children = []) : node.indices = [(token.index : Int)] := by
  have hsome : (token.index : Int) ≠ -1 := by omega
  simp [indices, preorder_eq node, hchildren, hindex, hsome]

theorem Node.indices_settle (sign : Token) : (node.settle sign).indices = node.indices := by
  simp [indices, preorder_eq]

end Indices

section Lists

theorem Listed.sublist {type : Terminal} {tokens names : List Token}
    (h : Listed type tokens names) : names.Sublist tokens := by
  induction h with
  | nil => exact .slnil
  | cons _ _ _ ih => exact .cons _ (ih.cons_cons _)

theorem ScopeNames.sublist {tokens names : List Token} (h : ScopeNames tokens names) :
    names.Sublist tokens := by
  cases h with
  | none => exact .slnil
  | some _ hnames _ => exact (hnames.sublist.cons_cons _).trans (List.sublist_append_left _ _)

end Lists

section Tokens

variable {tokens : List Token}

/-- The tokens of a node and of the nodes below it are among `own`. -/
def Within (own : List Token) (node : Node) : Prop :=
  ∀ index ∈ node.indices, ∃ token ∈ own, index = (token.index : Int)

def Ascending (own : List Token) : Prop :=
  own.Pairwise fun first second => first.index < second.index

theorem Within.subset {own more : List Token} {node : Node} (h : Within own node)
    (hsubset : own ⊆ more) : Within more node := by
  intro index hindex
  obtain ⟨token, htoken, heq⟩ := h index hindex
  exact ⟨token, hsubset htoken, heq⟩

theorem Within.precedes {own more : List Token} {first second : Node} (hfirst : Within own first)
    (hsecond : Within more second)
    (hearlier : ∀ token ∈ own, ∀ other ∈ more, token.index < other.index) :
    first.Precedes second := by
  intro before hbefore after hafter
  obtain ⟨token, htoken, rfl⟩ := hfirst before hbefore
  obtain ⟨other, hother, rfl⟩ := hsecond after hafter
  exact Int.ofNat_lt.2 (hearlier token htoken other hother)

theorem within_leaf {node : Node} {token : Token} (hindex : node.tokenIndex = token.index)
    (hchildren : node.children = []) : Within [token] node := by
  intro index hmember
  rw [Node.indices_leaf hindex hchildren, List.mem_singleton] at hmember
  exact ⟨token, List.mem_singleton_self _, hmember⟩

/-! ## Nodes in a row -/

/-- A node whose tokens are among `own`, in order at every node below it. -/
structure Seated (tokens own : List Token) (node : Node) : Prop where
  within : Within own node
  below : ∀ other ∈ node.preorder, Ordered tokens other

structure Row (tokens own : List Token) (nodes : List Node) : Prop where
  seated : ∀ node ∈ nodes, Seated tokens own node
  ordered : nodes.Pairwise Node.Precedes

section Rows

variable {own more : List Token} {node : Node} {nodes others : List Node}

theorem Row.nil : Row tokens own [] :=
  ⟨by simp, .nil⟩

theorem Row.single (h : Seated tokens own node) : Row tokens own [node] :=
  ⟨by simpa using h, List.pairwise_singleton _ _⟩

theorem Seated.subset (h : Seated tokens own node) (hsubset : own ⊆ more) :
    Seated tokens more node :=
  ⟨h.within.subset hsubset, h.below⟩

theorem Row.subset (h : Row tokens own nodes) (hsubset : own ⊆ more) : Row tokens more nodes :=
  ⟨fun node hnode => (h.seated node hnode).subset hsubset, h.ordered⟩

theorem Row.append (h : Row tokens own nodes) (hmore : Row tokens more others)
    (hascending : Ascending (own ++ more)) : Row tokens (own ++ more) (nodes ++ others) := by
  obtain ⟨-, -, hearlier⟩ := List.pairwise_append.1 hascending
  constructor
  · simp only [List.forall_mem_append]
    exact ⟨(h.subset (List.subset_append_left _ _)).seated,
      (hmore.subset (List.subset_append_right _ _)).seated⟩
  · refine List.pairwise_append.2 ⟨h.ordered, hmore.ordered, fun node hnode other hother => ?_⟩
    exact (h.seated node hnode).within.precedes (hmore.seated other hother).within hearlier

theorem seated_of_row (hkind : node.kind ≠ .rule) (h : Row tokens own node.children)
    (hindex : ∀ index ∈ node.indices, index = node.tokenIndex →
      ∃ token ∈ own, index = (token.index : Int)) : Seated tokens own node := by
  refine ⟨fun index hmember => ?_, ?_⟩
  · rcases Node.mem_indices.1 hmember with ⟨rfl, -⟩ | ⟨child, hchild, hbelow⟩
    · exact hindex _ hmember rfl
    · exact (h.seated child hchild).within index hbelow
  · refine Node.forall_mem_preorder.2 ⟨⟨fun _ => h.ordered, fun hrule => absurd hrule hkind⟩, ?_⟩
    exact fun child hchild => (h.seated child hchild).below

theorem Row.below {token : Token} (h : Row tokens own node.children)
    (hindex : node.tokenIndex = token.index) (htoken : token ∈ own) (hkind : node.kind ≠ .rule) :
    Seated tokens own node :=
  seated_of_row hkind h fun _ _ heq => ⟨token, htoken, heq.trans hindex⟩

theorem Seated.children (h : Seated tokens own node) (hkind : node.kind ≠ .rule) :
    Row tokens own node.children := by
  obtain ⟨hordered, hchildren⟩ := Node.forall_mem_preorder.1 h.below
  refine ⟨fun child hchild => ⟨fun index hindex => ?_, hchildren child hchild⟩,
    hordered.children hkind⟩
  exact h.within index (Node.mem_indices.2 (.inr ⟨child, hchild, hindex⟩))

theorem Seated.settle (h : Seated tokens own node) (sign : Token) :
    Seated tokens own (node.settle sign) := by
  by_cases hkind : node.kind = .rule
  · obtain ⟨name, _, _, hrule⟩ := (h.below node node.self_mem_preorder).rule hkind
    have hindex : node.tokenIndex = name.index := by
      rw [hrule.of_name, Node.addChildren_tokenIndex, Node.ofToken_tokenIndex]
    have hsettled : node.settle sign = node := if_neg (by omega)
    rwa [hsettled]
  · refine seated_of_row (by simpa using hkind) (by simpa using h.children hkind) ?_
    intro index hindex _
    rw [Node.indices_settle] at hindex
    exact h.within index hindex

theorem Row.settle (h : Row tokens own nodes) (sign : Token) :
    Row tokens own (nodes.map (Node.settle sign)) := by
  constructor
  · exact List.forall_mem_map.2 fun node hnode => (h.seated node hnode).settle sign
  · refine List.pairwise_map.2 (h.ordered.imp fun hprecedes => ?_)
    simpa only [Node.Precedes, Node.indices_settle] using hprecedes

theorem Seated.anchor {sign : Token} (h : Seated tokens own node) (hkind : node.kind ≠ .rule) :
    Seated tokens (sign :: own) (node.anchor sign) :=
  (((h.children hkind).settle sign).subset (List.subset_cons_self _ _)).below rfl
    List.mem_cons_self hkind

/-! ## Leaves -/

def LeafOf (token : Token) (node : Node) : Prop :=
  node.tokenIndex = token.index ∧ node.children = [] ∧ node.kind ≠ .rule

theorem LeafOf.seated {token : Token} (h : LeafOf token node) : Seated tokens [token] node := by
  obtain ⟨hindex, hchildren, hkind⟩ := h
  exact Row.below (by rw [hchildren]; exact .nil) hindex (List.mem_singleton_self _) hkind

theorem row_of_leaves (h : List.Forall₂ LeafOf own nodes) (hascending : Ascending own) :
    Row tokens own nodes := by
  induction h with
  | nil => exact .nil
  | cons hleaf _ ih =>
      exact (Row.single hleaf.seated).append (ih hascending.of_cons) hascending

theorem leaves_map {leaf : Token → Node} (names : List Token)
    (h : ∀ token, LeafOf token (leaf token)) : List.Forall₂ LeafOf names (names.map leaf) :=
  List.forall₂_map_right_iff.2 (List.forall₂_same.2 fun token _ => h token)

theorem seated_of_leaves {token : Token} (chosen : List Token)
    (h : List.Forall₂ LeafOf chosen node.children) (hchosen : chosen.Sublist own)
    (hascending : Ascending own) (hindex : node.tokenIndex = token.index) (htoken : token ∈ own)
    (hkind : node.kind ≠ .rule) : Seated tokens own node :=
  ((row_of_leaves h (hascending.sublist hchosen)).subset hchosen.subset).below hindex htoken hkind

end Rows

/-! ## Nodes of rules -/

def OrderedIn (tokens : List Token) (_ : Rule) (own : List Token) (node : Node) : Prop :=
  (∀ token ∈ own, Known tokens token) → Ascending own → Seated tokens own node

section Parts

variable {rule : Rule} {own : List Token} {nodes : List Node}

theorem Each.row {part : List Token → Node → Prop}
    (hpart : ∀ {own node}, part own node → (∀ token ∈ own, Known tokens token) →
      Ascending own → Seated tokens own node)
    (h : Each part own nodes) (hown : ∀ token ∈ own, Known tokens token)
    (hascending : Ascending own) : Row tokens own nodes := by
  induction h with
  | nil => exact .nil
  | cons hfirst _ ih =>
      obtain ⟨hknown, hmore⟩ := List.forall_mem_append.1 hown
      obtain ⟨hbefore, hafter, -⟩ := List.pairwise_append.1 hascending
      exact (Row.single (hpart hfirst hknown hbefore)).append (ih hmore hafter) hascending

theorem Each.rowOf (h : Each (Kinded (OrderedIn tokens) rule) own nodes)
    (hown : ∀ token ∈ own, Known tokens token) (hascending : Ascending own) :
    Row tokens own nodes :=
  h.row (fun hpart => hpart.1) hown hascending

theorem Each.rowAfter {sign : Mark}
    (h : Each (After sign (Kinded (OrderedIn tokens) rule)) own nodes)
    (hown : ∀ token ∈ own, Known tokens token) (hascending : Ascending own) :
    Row tokens own nodes := by
  refine h.row (fun hpart hknown hafter => ?_) hown hascending
  obtain ⟨mark, rest, -, hnode, rfl⟩ := hpart
  exact (hnode.1 (List.forall_mem_cons.1 hknown).2 hafter.of_cons).subset
    (List.subset_cons_self _ _)

theorem Maybe.row (h : Maybe (Kinded (OrderedIn tokens) rule) own nodes)
    (hown : ∀ token ∈ own, Known tokens token) (hascending : Ascending own) :
    Row tokens own nodes := by
  cases h with
  | none => exact .nil
  | some hpart => exact .single (hpart.1 hown hascending)

theorem Maybe.rowBefore {sign : Mark}
    (h : Maybe (Before sign (Kinded (OrderedIn tokens) rule)) own nodes)
    (hown : ∀ token ∈ own, Known tokens token) (hascending : Ascending own) :
    Row tokens own nodes := by
  cases h with
  | none => exact .nil
  | some hpart =>
      obtain ⟨mark, rest, -, hnode, rfl⟩ := hpart
      obtain ⟨hrest, -, -⟩ := List.pairwise_append.1 hascending
      exact .single ((hnode.1 (List.forall_mem_append.1 hown).1 hrest).subset
        (List.subset_append_left _ _))

theorem InOrder.row {rules : List Rule} (h : InOrder (Kinded (OrderedIn tokens)) rules own nodes)
    (hown : ∀ token ∈ own, Known tokens token) (hascending : Ascending own) :
    Row tokens own nodes := by
  induction h with
  | nil => exact .nil
  | skip _ ih => exact ih hown hascending
  | take hfirst _ ih =>
      obtain ⟨hknown, hmore⟩ := List.forall_mem_append.1 hown
      obtain ⟨hbefore, hafter, -⟩ := List.pairwise_append.1 hascending
      exact (Row.single (hfirst.1 hknown hbefore)).append (ih hmore hafter) hascending

end Parts

/-- The children of a rule in three rows: before its name, before its end, after it. -/
structure RuleRows (tokens words heading handlers : List Token)
    (modifier inner closing : List Node) : Prop where
  words : Row tokens words modifier
  heading : Row tokens heading inner
  handlers : Row tokens handlers closing
  modifier_kind : ∀ node ∈ modifier, node.kind ∈ modifierKinds
  inner_kind : ∀ node ∈ inner, node.kind ∉ modifierKinds ++ handlerKinds
  closing_kind : ∀ node ∈ closing, node.kind ∈ handlerKinds

section Rule

variable {words heading handlers : List Token} {modifier inner closing : List Node}
  {name semicolon : Token}

theorem seated_name (name : Token) : Seated tokens [name] (.ofToken .id name) :=
  LeafOf.seated ⟨rfl, rfl, by simp⟩

theorem seated_end (semicolon : Token) : Seated tokens [semicolon] (endNode semicolon) :=
  LeafOf.seated ⟨rfl, rfl, by simp [endNode]⟩

theorem sublist_of_rule (words heading handlers : List Token) (name semicolon : Token) :
    (words ++ heading ++ handlers).Sublist (words ++ name :: heading ++ semicolon :: handlers) :=
  ((List.Sublist.refl words).append (List.sublist_cons_self name heading)).append
    (List.sublist_cons_self semicolon handlers)

theorem RuleRows.row (h : RuleRows tokens words heading handlers modifier inner closing)
    (hascending : Ascending (words ++ name :: heading ++ semicolon :: handlers)) :
    Row tokens (words ++ heading ++ handlers) (modifier ++ inner ++ closing) := by
  have hall : Ascending (words ++ heading ++ handlers) :=
    hascending.sublist (sublist_of_rule words heading handlers name semicolon)
  exact (h.words.append h.heading (hall.sublist (List.sublist_append_left _ _))).append
    h.handlers hall

theorem RuleRows.around_name (h : RuleRows tokens words heading handlers modifier inner closing)
    (hascending : Ascending (words ++ name :: heading ++ semicolon :: handlers)) :
    ∀ part ∈ modifier ++ inner ++ closing,
      if part.kind ∈ modifierKinds then part.Precedes (.ofToken .id name)
      else (Node.ofToken .id name).Precedes part := by
  have hapart : ∀ kind ∈ handlerKinds, kind ∉ modifierKinds := by decide
  have hname : Within [name] (.ofToken .id name) := within_leaf rfl rfl
  obtain ⟨hfront, -, hacross⟩ := List.pairwise_append.1 hascending
  obtain ⟨-, hheaded, hworded⟩ := List.pairwise_append.1 hfront
  simp only [List.forall_mem_append]
  refine ⟨⟨fun part hpart => ?_, fun part hpart => ?_⟩, fun part hpart => ?_⟩
  · rw [if_pos (h.modifier_kind part hpart)]
    refine (h.words.seated part hpart).within.precedes hname fun token htoken => ?_
    exact List.forall_mem_singleton.2 (hworded token htoken name List.mem_cons_self)
  · rw [if_neg fun hkind => h.inner_kind part hpart (List.mem_append_left _ hkind)]
    refine hname.precedes (h.heading.seated part hpart).within (List.forall_mem_singleton.2 ?_)
    exact (List.pairwise_cons.1 hheaded).1
  · rw [if_neg (hapart _ (h.closing_kind part hpart))]
    refine hname.precedes (h.handlers.seated part hpart).within (List.forall_mem_singleton.2 ?_)
    exact fun token htoken => hacross name (by simp) token (List.mem_cons_of_mem _ htoken)

theorem RuleRows.around_end (h : RuleRows tokens words heading handlers modifier inner closing)
    (hascending : Ascending (words ++ name :: heading ++ semicolon :: handlers)) :
    ∀ part ∈ modifier ++ inner ++ closing,
      if part.kind ∈ handlerKinds then (endNode semicolon).Precedes part
      else part.Precedes (endNode semicolon) := by
  have hapart : ∀ kind ∈ handlerKinds, kind ∉ modifierKinds := by decide
  have hend : Within [semicolon] (endNode semicolon) := within_leaf rfl rfl
  obtain ⟨-, hback, hacross⟩ := List.pairwise_append.1 hascending
  have hbefore : ∀ token ∈ words ++ name :: heading, ∀ other ∈ [semicolon],
      token.index < other.index := fun token htoken =>
    List.forall_mem_singleton.2 (hacross token htoken semicolon List.mem_cons_self)
  simp only [List.forall_mem_append]
  refine ⟨⟨fun part hpart => ?_, fun part hpart => ?_⟩, fun part hpart => ?_⟩
  · rw [if_neg fun hkind => hapart _ hkind (h.modifier_kind part hpart)]
    exact ((h.words.seated part hpart).within.subset (by simp)).precedes hend hbefore
  · rw [if_neg fun hkind => h.inner_kind part hpart (List.mem_append_right _ hkind)]
    exact ((h.heading.seated part hpart).within.subset (by simp)).precedes hend hbefore
  · rw [if_pos (h.closing_kind part hpart)]
    refine hend.precedes (h.handlers.seated part hpart).within (List.forall_mem_singleton.2 ?_)
    exact (List.pairwise_cons.1 hback).1

theorem RuleRows.seated (h : RuleRows tokens words heading handlers modifier inner closing)
    (hname : Known tokens name) (hnamed : name.type = .identifier)
    (hsemicolon : Known tokens semicolon) (hends : semicolon.type = .mark .semicolon)
    (hascending : Ascending (words ++ name :: heading ++ semicolon :: handlers)) :
    Seated tokens (words ++ name :: heading ++ semicolon :: handlers)
      ((Node.ofToken .rule name).addChildren
        (.ofToken .id name :: modifier ++ inner ++ closing ++ [endNode semicolon])) := by
  have hsublist := sublist_of_rule words heading handlers name semicolon
  have hlt : name.index < semicolon.index :=
    (List.pairwise_append.1 hascending).2.2 name (by simp) semicolon List.mem_cons_self
  have hrow := h.row hascending
  have hall : ∀ child ∈ Node.ofToken .id name :: modifier ++ inner ++ closing ++
      [endNode semicolon],
      Seated tokens (words ++ name :: heading ++ semicolon :: handlers) child := by
    simp only [List.cons_append, List.forall_mem_cons, List.forall_mem_append]
    refine ⟨(seated_name name).subset (by simp), ?_, (seated_end semicolon).subset (by simp),
      by simp⟩
    simpa only [List.forall_mem_append] using (hrow.subset hsublist.subset).seated
  refine ⟨fun index hindex => ?_, Node.forall_mem_preorder.2 ⟨⟨by simp, fun _ => ?_⟩,
    fun child hchild => (hall child hchild).below⟩⟩
  · rcases Node.mem_indices.1 hindex with ⟨rfl, -⟩ | ⟨child, hchild, hbelow⟩
    · exact ⟨name, by simp, rfl⟩
    · exact (hall child hchild).within index hbelow
  · exact ⟨name, semicolon, modifier ++ inner ++ closing, by simp, hname.at_index, hnamed, rfl,
      hsemicolon.at_index, hends, hlt, h.around_name hascending, h.around_end hascending,
      hrow.ordered⟩

end Rule

section Kinds

variable {holds : Rule → List Token → Node → Prop} {own more : List Token}
  {nodes others : List Node}

theorem kinds_of_modifier (h : Maybe (Kinded holds .ruleModifier) own nodes) :
    ∀ node ∈ nodes, node.kind ∈ modifierKinds := by
  intro node hnode
  obtain ⟨-, -, -, hkind⟩ := h.mem hnode
  exact hkind

theorem kinds_of_heading {block : Node} {colon : Token}
    (hparts : InOrder (Kinded holds) headParts own nodes)
    (hactions : Each (Kinded holds .actionSpec) more others)
    (hblock : block.kind ∈ Rule.altList.kinds) :
    ∀ node ∈ nodes ++ others ++ [block.anchor colon],
      node.kind ∉ modifierKinds ++ handlerKinds := by
  have happart : ∀ rule ∈ Rule.actionSpec :: Rule.altList :: headParts,
      ∀ kind ∈ rule.kinds, kind ∉ modifierKinds ++ handlerKinds := by decide
  simp only [List.forall_mem_append, List.forall_mem_singleton]
  refine ⟨⟨fun node hnode => ?_, fun node hnode => ?_⟩, ?_⟩
  · obtain ⟨rule, hrule, -, -, -, hkind⟩ := hparts.mem hnode
    exact happart rule (by simp [hrule]) _ hkind
  · obtain ⟨-, -, -, hkind⟩ := hactions.mem hnode
    exact happart .actionSpec (by simp) _ hkind
  · exact happart .altList (by simp) _ hblock

theorem kinds_of_handlers (hcatches : Each (Kinded holds .catchClause) own nodes)
    (hfinal : Maybe (Kinded holds .finallyClause) more others) :
    ∀ node ∈ nodes ++ others, node.kind ∈ handlerKinds := by
  have hhandler : ∀ rule ∈ [Rule.catchClause, .finallyClause],
      ∀ kind ∈ rule.kinds, kind ∈ handlerKinds := by decide
  simp only [List.forall_mem_append]
  refine ⟨fun node hnode => ?_, fun node hnode => ?_⟩
  · obtain ⟨-, -, -, hkind⟩ := hcatches.mem hnode
    exact hhandler .catchClause (by simp) _ hkind
  · obtain ⟨-, -, -, hkind⟩ := hfinal.mem hnode
    exact hhandler .finallyClause (by simp) _ hkind

end Kinds

theorem seated_listing {rule : Rule} {kind : Kind} {keyword left right : Token}
    {inner : List Token} {entries : List Node}
    (h : Each (Kinded (OrderedIn tokens) rule) inner entries)
    (hown : ∀ token ∈ keyword :: left :: inner ++ [right], Known tokens token)
    (hascending : Ascending (keyword :: left :: inner ++ [right])) (hkind : kind ≠ .rule) :
    Seated tokens (keyword :: left :: inner ++ [right])
      ((Node.ofToken kind keyword).addChildren entries) := by
  have hsublist : inner.Sublist (keyword :: left :: inner ++ [right]) :=
    ((List.sublist_append_left _ _).cons _).cons _
  have hrow := h.rowOf (fun token htoken => hown token (hsublist.subset htoken))
    (hascending.sublist hsublist)
  exact (hrow.subset hsublist.subset).below rfl (by simp) hkind

theorem seated_alternative {own : List Token} {elements : List Node}
    (h : Row tokens own elements) :
    Seated tokens own (Assemble.alternative (elements.map .node)) := by
  cases elements with
  | nil =>
      exact seated_of_row (by simp [Assemble.alternative]) .nil fun index hindex heq =>
        absurd heq (Node.ne_of_mem_indices hindex)
  | cons first rest =>
      rw [Assemble.alternative_cons]
      exact seated_of_row (by simp) h fun index hindex heq =>
        (h.seated first List.mem_cons_self).within index
          (Node.mem_indices.2 (.inl ⟨heq.symm, Node.ne_of_mem_indices hindex⟩))

theorem ordered_grammarFile {own : List Token} {node : Node}
    (h : Assembles (Kinded (OrderedIn tokens)) .grammarFile own node) :
    OrderedIn tokens .grammarFile own node := by
  intro hown hascending
  cases h with
  | @grammarFile head before rules root sections parts hhead hsections hrules =>
      simp only [List.forall_mem_append] at hown
      obtain ⟨⟨hheads, hbefores⟩, hafters⟩ := hown
      obtain ⟨hfront, hback, -⟩ := List.pairwise_append.1 hascending
      obtain ⟨hfirst, hsecond, -⟩ := List.pairwise_append.1 hfront
      have hkind : root.kind ≠ .rule := (verbatim_of_mem_grammars hhead.2).2
      have hseated := hhead.1 hheads hfirst
      have hsectionRow := hsections.rowOf hbefores hsecond
      have hrow := ((hseated.children hkind).append hsectionRow hfront).append
        (hrules.rowOf hafters hback) hascending
      rw [List.append_assoc (root.children)] at hrow
      refine seated_of_row hkind hrow fun index hindex heq => ?_
      have hmember : index ∈ root.indices :=
        Node.mem_indices.2 (.inl ⟨heq.symm, Node.ne_of_mem_indices hindex⟩)
      obtain ⟨token, htoken, hplace⟩ := hseated.within index hmember
      exact ⟨token, by simp [htoken], hplace⟩

theorem ordered_ruleSpec {own : List Token} {node : Node}
    (h : Assembles (Kinded (OrderedIn tokens)) .ruleSpec own node) :
    OrderedIn tokens .ruleSpec own node := by
  intro hown hascending
  cases h with
  | @ruleSpec name colon semicolon body block modifier parts actions catches final hmodifier hname
      hparts hactions hcolon hbody hsemicolon hcatches hfinal =>
      -- The tree has the name before the modifier and the end behind the handlers, the text has
      -- them the other way round: so the children are taken as three rows.
      have htokens : modifier.1 ++ name :: parts.1 ++ actions.1 ++ colon :: body ++
          semicolon :: catches.1 ++ final.1 =
          modifier.1 ++ name :: (parts.1 ++ actions.1 ++ colon :: body) ++
            semicolon :: (catches.1 ++ final.1) := by
        simp
      rw [htokens] at hown hascending ⊢
      simp only [List.forall_mem_append, List.forall_mem_cons] at hown
      obtain ⟨⟨hkwords, hkname, ⟨hkparts, hkactions⟩, hkcolon, hkbody⟩, hksemicolon, hkcatches,
        hkfinal⟩ := hown
      have hrows : RuleRows tokens modifier.1 (parts.1 ++ actions.1 ++ colon :: body)
          (catches.1 ++ final.1) modifier.2 (parts.2 ++ actions.2 ++ [block.anchor colon])
          (catches.2 ++ final.2) := by
        obtain ⟨hfront, hback, -⟩ := List.pairwise_append.1 hascending
        obtain ⟨hwords, hheaded, -⟩ := List.pairwise_append.1 hfront
        have hheading : Ascending (parts.1 ++ actions.1 ++ colon :: body) := hheaded.of_cons
        have hhandlers : Ascending (catches.1 ++ final.1) := hback.of_cons
        obtain ⟨hsections, hanchored, -⟩ := List.pairwise_append.1 hheading
        obtain ⟨hfirst, hsecond, -⟩ := List.pairwise_append.1 hsections
        obtain ⟨hthird, hlast, -⟩ := List.pairwise_append.1 hhandlers
        have hblock : block.kind ≠ .rule := by
          intro hrule
          exact absurd hbody.2 (by simp [hrule, Rule.kinds])
        have hbodyRow : Row tokens (colon :: body) [block.anchor colon] :=
          .single ((hbody.1 hkbody hanchored.of_cons).anchor hblock)
        exact ⟨hmodifier.row hkwords hwords,
          ((hparts.row hkparts hfirst).append (hactions.rowOf hkactions hsecond)
            hsections).append hbodyRow hheading,
          (hcatches.rowOf hkcatches hthird).append (hfinal.row hkfinal hlast) hhandlers,
          kinds_of_modifier hmodifier, kinds_of_heading hparts hactions hbody.2,
          kinds_of_handlers hcatches hfinal⟩
      simpa using hrows.seated hkname hname hksemicolon hsemicolon hascending

theorem ordered_subrule {own : List Token} {node : Node}
    (h : Assembles (Kinded (OrderedIn tokens)) .subrule own node) :
    OrderedIn tokens .subrule own node := by
  intro hown hascending
  cases h with
  | @subrule opening closing kind options body block hopening hoptions hbody =>
      have hkinds : kind ≠ .rule := by
        rintro rfl
        simp at hopening
      have hblock : block.kind ≠ .rule := by
        intro hrule
        exact absurd hbody.2 (by simp [hrule, Rule.kinds])
      have hsublist : (options.1 ++ body).Sublist (opening :: options.1 ++ body ++ [closing]) :=
        (List.sublist_append_left _ _).cons opening
      obtain ⟨hsettings, hinner⟩ := List.forall_mem_append.1 fun token htoken =>
        hown token (hsublist.subset htoken)
      have hmiddle : Ascending (options.1 ++ body) := hascending.sublist hsublist
      obtain ⟨hbefore, hafter, -⟩ := List.pairwise_append.1 hmiddle
      have hrow := (hoptions.rowBefore hsettings hbefore).append
        ((hbody.1 hinner hafter).children hblock) hmiddle
      exact ((hrow.subset hsublist.subset).settle opening).below rfl (by simp) hkinds

theorem inductive_ordered : Inductive (OrderedIn tokens) := by
  intro rule own node h hown hascending
  have hnode := h
  cases h with
  | grammarFile => exact ordered_grammarFile hnode hown hascending
  | @grammarHead keyword name =>
      exact seated_of_leaves [name] (by simp [LeafOf]) (by simp) hascending rfl (by simp) (by simp)
  | @typedHead type keyword name semicolon kind _ hkind =>
      have hgrammar := verbatim_of_mem_grammars (grammarKind?_mem hkind)
      exact seated_of_leaves [name] (by simp [LeafOf]) (by simp) hascending rfl (by simp) hgrammar.2
  | prequel _ hpart => exact hpart.1 hown hascending
  | optionsSpec _ _ _ hentries => exact seated_listing hentries hown hascending (by simp)
  | @option key sign value =>
      refine seated_of_leaves [key, value] ?_ (by simp) hascending rfl (by simp) (by simp)
      simpa [LeafOf] using ne_of_mem_of_not_mem (Shape.optionKind_mem value) (by decide)
  | @importSpec keyword semicolon first more delegate delegates _ hfirst hmore =>
      simp only [List.forall_mem_append, List.forall_mem_cons] at hown
      obtain ⟨⟨⟨-, hnames⟩, hothers⟩, -⟩ := hown
      obtain ⟨hfront, -, -⟩ := List.pairwise_append.1 hascending
      have hlisted : Ascending (first ++ more) := List.Pairwise.of_cons hfront
      have hleft := List.pairwise_append.1 hlisted
      have hrow := (Row.single (hfirst.1 hnames hleft.1)).append
        (hmore.rowAfter hothers hleft.2.1) hlisted
      have hsubset : first ++ more ⊆ keyword :: first ++ more ++ [semicolon] :=
        List.Subset.trans (List.subset_cons_self _ _) (List.subset_append_left _ _)
      exact (hrow.subset hsubset).below rfl (by simp) (by simp)
  | @delegate name => exact LeafOf.seated ⟨rfl, rfl, by simp⟩
  | @renamed short sign name =>
      exact seated_of_leaves [short, name] (by simp [LeafOf]) (by simp) hascending rfl (by simp)
        (by simp)
  | tokensSpec _ _ _ hentries => exact seated_listing hentries hown hascending (by simp)
  | imaginary => exact (LeafOf.seated ⟨rfl, rfl, by simp⟩).subset (by simp)
  | @tokenSpec name sign literal =>
      refine seated_of_leaves [name, literal] ?_ (by simp) hascending rfl (by simp) (by simp)
      simpa [LeafOf] using ne_of_mem_of_not_mem (Shape.literalKind_mem literal.text) (by decide)
  | @grammarScope keyword name action =>
      exact seated_of_leaves [name, action] (by simp [LeafOf]) (by simp) hascending rfl (by simp)
        (by simp)
  | @actionSpec sign name action =>
      exact seated_of_leaves [name, action] (by simp [LeafOf]) (by simp) hascending rfl (by simp)
        (by simp)
  | @scopedAction sign scope colons name action =>
      exact seated_of_leaves [scope, name, action] (by simp [LeafOf]) (by simp) hascending rfl
        (by simp) (by simp)
  | ruleSpec => exact ordered_ruleSpec hnode hown hascending
  | ruleModifier hkind =>
      refine LeafOf.seated ⟨rfl, rfl, ?_⟩
      rintro rfl
      exact absurd (modifierKind?_mem hkind) (by decide)
  | ruleBang => exact LeafOf.seated ⟨rfl, rfl, by simp⟩
  | ruleArgs => exact LeafOf.seated ⟨rfl, rfl, by simp⟩
  | @returnsSpec keyword args =>
      exact seated_of_leaves [args] (by simp [LeafOf]) (by simp) hascending rfl (by simp) (by simp)
  | @throwsSpec keyword name tokens names _ _ hnames =>
      refine seated_of_leaves (name :: names) ?_ ?_ hascending rfl (by simp) (by simp)
      · exact leaves_map _ (by simp [LeafOf])
      · exact .cons _ (hnames.sublist.cons_cons _)
  | @ruleScope keyword actions tokens names _ _ _ hnames =>
      refine seated_of_leaves (actions ++ names) ?_ ?_ hascending rfl (by simp) (by simp)
      · exact List.rel_append (leaves_map _ (by simp [LeafOf])) (leaves_map _ (by simp [LeafOf]))
      · exact .cons _ ((List.Sublist.refl _).append hnames.sublist)
  | @catchClause keyword args action =>
      exact seated_of_leaves [args, action] (by simp [LeafOf]) (by simp) hascending rfl (by simp)
        (by simp)
  | @finallyClause keyword action =>
      exact seated_of_leaves [action] (by simp [LeafOf]) (by simp) hascending rfl (by simp)
        (by simp)
  | @altList first more alternative alternatives hfirst hmore =>
      obtain ⟨hknown, hothers⟩ := List.forall_mem_append.1 hown
      obtain ⟨hbefore, hafter, -⟩ := List.pairwise_append.1 hascending
      have hrow := (Row.single (hfirst.1 hknown hbefore)).append (hmore.rowAfter hothers hafter)
        hascending
      exact seated_of_row (by simp) hrow fun index hindex heq =>
        absurd heq (Node.ne_of_mem_indices hindex)
  | alternative helements => exact seated_alternative (helements.rowOf hown hascending)
  | element _ hpart => exact hpart.1 hown hascending
  | subrule => exact ordered_subrule hnode hown hascending
  | @atom token node hnode =>
      rcases atom_cases hnode with ⟨kind, hkind, -, -, rfl⟩ | ⟨-, rfl⟩ | ⟨-, rfl⟩
      · refine LeafOf.seated ⟨rfl, rfl, ?_⟩
        rintro rfl
        simp [atomKinds] at hkind
      · exact LeafOf.seated ⟨rfl, rfl, by simp⟩
      · exact LeafOf.seated ⟨rfl, rfl, by simp⟩

end Tokens

theorem Source.ascending {text : String} {file : Option String} {source : Source}
    (h : Source.parse text file = .ok source) : Ascending source.tokens.toList := by
  have hcovers := Source.covers h
  refine List.pairwise_iff_getElem.2 fun first second hfirst hsecond hlt => ?_
  rw [hcovers.index_eq (List.getElem?_eq_getElem hfirst),
    hcovers.index_eq (List.getElem?_eq_getElem hsecond)]
  omega

/-- Siblings are in source order.  Of two children of a node, every token below the
first is before every token below the second.  In a rule this holds of the children
between its name and its end; the name is after a modifier and before the others,
the end before the handlers of exceptions and after the others.  Only empty
alternatives have no token. -/
theorem Source.siblings_ordered {text : String} {file : Option String} {source : Source}
    (h : Source.parse text file = .ok source) : ∀ node ∈ source.root.preorder,
      (node.tokenIndex = -1 → node.kind = .alternative ∧ node.children = []) ∧
      Ordered source.tokens.toList node := by
  have hseated : Seated source.tokens.toList source.tokens.toList source.root :=
    Source.holds_root inductive_ordered h (fun _ htoken => Source.known h htoken)
      (Source.ascending h)
  intro node hnode
  obtain ⟨_, hlinked⟩ := Source.linked h node hnode
  exact ⟨hlinked.free_iff.1, hseated.below node hnode⟩

/-- A grammar with a rule that has a modifier, arguments, subrules and handlers. -/
def Ordered.sampleText : String :=
  "grammar g;\nfragment A[int i] options \x7b j = 1; \x7d : (b | c)* | ;\n" ++
    "catch[e] \x7b f \x7d finally \x7b g \x7d\n"

theorem Source.siblings_ordered_modified :
    ∃ source, Source.parse Ordered.sampleText none = .ok source ∧
      ∀ node ∈ source.root.preorder,
        (node.tokenIndex = -1 → node.kind = .alternative ∧ node.children = []) ∧
        Ordered source.tokens.toList node := by
  have hsome : (Source.parse Ordered.sampleText none).toOption.isSome = true := by
    decide +kernel
  obtain ⟨source, hsource⟩ := Source.exists_of_isSome hsome
  exact ⟨source, hsource, Source.siblings_ordered hsource⟩

end GrammarLint
