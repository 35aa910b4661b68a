import GrammarLint.Source.Assemble

/-!
# Fields and descendants of nodes

What the functions that make nodes do to each field, and the list of a node and
all below it.
-/

namespace GrammarLint

open Grammar

namespace Node

/-! ## Fields -/

section Fields

variable (kind : Kind) (token : Token) (node child : Node) (nodes : List Node)

@[simp] theorem ofToken_kind : (ofToken kind token).kind = kind := rfl
@[simp] theorem ofToken_text : (ofToken kind token).text = token.text := rfl
@[simp] theorem ofToken_line : (ofToken kind token).line = token.line := rfl
@[simp] theorem ofToken_column : (ofToken kind token).column = token.column := rfl
@[simp] theorem ofToken_tokenIndex : (ofToken kind token).tokenIndex = token.index := rfl
@[simp] theorem ofToken_children : (ofToken kind token).children = [] := rfl

@[simp] theorem ofBlock_kind : (ofBlock kind token).kind = kind := rfl
@[simp] theorem ofBlock_text :
    (ofBlock kind token).text = String.ofList token.text.toList.tail.dropLast := rfl
@[simp] theorem ofBlock_line : (ofBlock kind token).line = token.line := rfl
@[simp] theorem ofBlock_column : (ofBlock kind token).column = token.column := rfl
@[simp] theorem ofBlock_tokenIndex : (ofBlock kind token).tokenIndex = token.index := rfl
@[simp] theorem ofBlock_children : (ofBlock kind token).children = [] := rfl

@[simp] theorem addChild_kind : (node.addChild child).kind = node.kind := rfl
@[simp] theorem addChild_text : (node.addChild child).text = node.text := rfl
@[simp] theorem addChild_line : (node.addChild child).line = node.line := rfl
@[simp] theorem addChild_column : (node.addChild child).column = node.column := rfl
@[simp] theorem addChild_tokenIndex : (node.addChild child).tokenIndex = node.tokenIndex := rfl
@[simp] theorem addChild_children :
    (node.addChild child).children = node.children ++ [child] := rfl

@[simp] theorem addChildren_kind : (node.addChildren nodes).kind = node.kind := rfl
@[simp] theorem addChildren_text : (node.addChildren nodes).text = node.text := rfl
@[simp] theorem addChildren_line : (node.addChildren nodes).line = node.line := rfl
@[simp] theorem addChildren_column : (node.addChildren nodes).column = node.column := rfl
@[simp] theorem addChildren_tokenIndex :
    (node.addChildren nodes).tokenIndex = node.tokenIndex := rfl
@[simp] theorem addChildren_children :
    (node.addChildren nodes).children = node.children ++ nodes := rfl

@[simp] theorem moveTo_kind : (node.moveTo token).kind = node.kind := rfl
@[simp] theorem moveTo_text : (node.moveTo token).text = node.text := rfl
@[simp] theorem moveTo_line : (node.moveTo token).line = token.line := rfl
@[simp] theorem moveTo_column : (node.moveTo token).column = token.column := rfl
@[simp] theorem moveTo_tokenIndex : (node.moveTo token).tokenIndex = node.tokenIndex := rfl
@[simp] theorem moveTo_children : (node.moveTo token).children = node.children := rfl

end Fields

/-- A node with a token stays where it is, one without takes the place of a token. -/
def settle (token : Token) (node : Node) : Node :=
  if node.tokenIndex < 0 then node.moveTo token else node

section Anchor

variable (token : Token) (node : Node)

@[simp] theorem anchor_kind : (node.anchor token).kind = node.kind := rfl
@[simp] theorem anchor_text : (node.anchor token).text = node.text := rfl
@[simp] theorem anchor_line : (node.anchor token).line = token.line := rfl
@[simp] theorem anchor_column : (node.anchor token).column = token.column := rfl
@[simp] theorem anchor_tokenIndex : (node.anchor token).tokenIndex = token.index := rfl
@[simp] theorem anchor_children :
    (node.anchor token).children = node.children.map (settle token) := rfl

@[simp] theorem settle_kind : (node.settle token).kind = node.kind := by
  unfold settle
  split <;> rfl

@[simp] theorem settle_text : (node.settle token).text = node.text := by
  unfold settle
  split <;> rfl

@[simp] theorem settle_tokenIndex : (node.settle token).tokenIndex = node.tokenIndex := by
  unfold settle
  split <;> rfl

@[simp] theorem settle_children : (node.settle token).children = node.children := by
  unfold settle
  split <;> rfl

end Anchor

/-! ## Descendants -/

mutual

theorem preorderBefore_eq (tail : List Node) :
    (node : Node) → preorderBefore tail node = preorderBefore [] node ++ tail
  | ⟨_, _, _, _, _, children⟩ => by
      simp only [preorderBefore, List.cons_append]
      rw [preordersBefore_eq tail children]

theorem preordersBefore_eq (tail : List Node) :
    (nodes : List Node) → preordersBefore tail nodes = preordersBefore [] nodes ++ tail
  | [] => rfl
  | node :: nodes => by
      simp only [preordersBefore]
      rw [preorderBefore_eq (preordersBefore tail nodes) node,
        preorderBefore_eq (preordersBefore [] nodes) node, preordersBefore_eq tail nodes,
        List.append_assoc]

end

theorem preorder_eq (node : Node) : node.preorder = node :: node.children.flatMap preorder := by
  have hchildren (nodes : List Node) : preordersBefore [] nodes = nodes.flatMap preorder := by
    induction nodes with
    | nil => rfl
    | cons node nodes ih =>
        rw [preordersBefore, preorderBefore_eq, ih]
        rfl
  cases node
  rw [← hchildren, preorder, preorderBefore]

theorem forall_mem_preorder {holds : Node → Prop} {node : Node} :
    (∀ below ∈ node.preorder, holds below) ↔
      holds node ∧ ∀ child ∈ node.children, ∀ below ∈ child.preorder, holds below := by
  simp only [preorder_eq node, List.forall_mem_cons, List.forall_mem_flatMap]

theorem self_mem_preorder (node : Node) : node ∈ node.preorder := by
  rw [preorder_eq]
  exact List.mem_cons_self

theorem mem_preorder_of_child {node child below : Node} (hchild : child ∈ node.children)
    (h : below ∈ child.preorder) : below ∈ node.preorder := by
  rw [preorder_eq]
  exact List.mem_cons_of_mem _ (List.mem_flatMap.2 ⟨child, hchild, h⟩)

theorem child_mem_preorder {node child : Node} (h : child ∈ node.children) :
    child ∈ node.preorder :=
  mem_preorder_of_child h child.self_mem_preorder

end Node

section Pairs

variable (sign : Token) (left right : Node)

@[simp] theorem Assemble.pair_kind : (Assemble.pair sign left right).kind = .assign := rfl
@[simp] theorem Assemble.pair_text : (Assemble.pair sign left right).text = sign.text := rfl
@[simp] theorem Assemble.pair_line : (Assemble.pair sign left right).line = sign.line := rfl
@[simp] theorem Assemble.pair_column : (Assemble.pair sign left right).column = sign.column := rfl
@[simp] theorem Assemble.pair_tokenIndex :
    (Assemble.pair sign left right).tokenIndex = sign.index := rfl
@[simp] theorem Assemble.pair_children :
    (Assemble.pair sign left right).children = [left, right] := rfl

end Pairs

/-! ## Items -/

namespace Item

section Lists

variable (token : Token) (node : Node) (items others : List Item) (nodes : List Node)
  (listed : List Token)

@[simp] theorem nodes_nil : Item.nodes [] = [] := rfl
@[simp] theorem tokens_nil : Item.tokens [] = [] := rfl
@[simp] theorem nodes_cons_node : Item.nodes (.node node :: items) = node :: Item.nodes items := rfl
@[simp] theorem nodes_cons_token : Item.nodes (.token token :: items) = Item.nodes items := rfl
@[simp] theorem tokens_cons_node : tokens (.node node :: items) = tokens items := rfl
@[simp] theorem tokens_cons_token :
    tokens (.token token :: items) = token :: tokens items := rfl

@[simp] theorem nodes_append :
    Item.nodes (items ++ others) = Item.nodes items ++ Item.nodes others :=
  List.filterMap_append

@[simp] theorem tokens_append : tokens (items ++ others) = tokens items ++ tokens others :=
  List.filterMap_append

@[simp] theorem nodes_map_node : Item.nodes (nodes.map .node) = nodes := by
  induction nodes with
  | nil => rfl
  | cons node nodes ih => rw [List.map_cons, nodes_cons_node, ih]

@[simp] theorem tokens_map_node : tokens (nodes.map .node) = [] := by
  induction nodes with
  | nil => rfl
  | cons node nodes ih => rw [List.map_cons, tokens_cons_node, ih]

@[simp] theorem tokens_map_token : tokens (listed.map .token) = listed := by
  induction listed with
  | nil => rfl
  | cons token listed ih => rw [List.map_cons, tokens_cons_token, ih]

@[simp] theorem nodes_map_token : Item.nodes (listed.map .token) = [] := by
  induction listed with
  | nil => rfl
  | cons token listed ih => rw [List.map_cons, nodes_cons_token, ih]

end Lists

end Item

section Alternatives

variable (first : Node) (elements : List Node)

@[simp] theorem Assemble.alternative_kind :
    (Assemble.alternative (elements.map .node)).kind = .alternative := by
  cases elements <;> simp [Assemble.alternative]

@[simp] theorem Assemble.alternative_text :
    (Assemble.alternative (elements.map .node)).text = Assemble.altLabel := by
  cases elements <;> simp [Assemble.alternative]

@[simp] theorem Assemble.alternative_children :
    (Assemble.alternative (elements.map .node)).children = elements := by
  cases elements <;> simp [Assemble.alternative]

theorem Assemble.alternative_cons :
    Assemble.alternative ((first :: elements).map .node) =
      { kind := .alternative, text := Assemble.altLabel
        line := first.line, column := first.column, tokenIndex := first.tokenIndex
        children := first :: elements } := by
  simp [Assemble.alternative]

end Alternatives

end GrammarLint
