import GrammarLint.Proofs.Assembly

/-!
# Views of tokens and trees

A view changes the texts, places and numbers of tokens.  Nodes take all three from
tokens, so that a tree put together of tokens under a view is the tree under that
view: `itemsOf_under`.
-/

namespace GrammarLint

open Grammar

structure View where
  text : String → String
  line : Int → Int
  column : Int → Int
  index : Nat → Nat

namespace View

def place (view : View) (index : Int) : Int :=
  if index < 0 then index else view.index index.toNat

@[simp] theorem place_natCast (view : View) (index : Nat) :
    view.place index = view.index index := by
  have hsign : ¬ (index : Int) < 0 := by omega
  simp [place, hsign]

theorem place_eq_self {view : View} (h : ∀ index, view.index index = index) (index : Int) :
    view.place index = index := by
  unfold place
  split
  · rfl
  · rw [h]
    omega

theorem place_neg (view : View) (index : Int) : view.place index < 0 ↔ index < 0 := by
  unfold place
  split
  · rfl
  · omega

/-- Nodes that do not come from a token look the same under the view. -/
structure Plain (view : View) : Prop where
  line_zero : view.line 0 = 0
  column_zero : view.column 0 = 0
  text_block : view.text Assemble.blockLabel = Assemble.blockLabel
  text_alt : view.text Assemble.altLabel = Assemble.altLabel
  text_end : view.text Assemble.endLabel = Assemble.endLabel

end View

def Token.under (view : View) (token : Token) : Token :=
  ⟨token.type, view.text token.text, view.line token.line, view.column token.column,
    view.index token.index⟩

namespace Node

mutual

def under (view : View) : Node → Node
  | ⟨kind, text, line, column, index, children⟩ =>
      ⟨kind, view.text text, view.line line, view.column column, view.place index,
        allUnder view children⟩

def allUnder (view : View) : List Node → List Node
  | [] => []
  | node :: nodes => under view node :: allUnder view nodes

end

end Node

def Item.under (view : View) : Item → Item
  | .token value => .token (value.under view)
  | .node value => .node (value.under view)

namespace Outline

mutual

def under (view : View) : Outline → Outline
  | .token value => .token (value.under view)
  | .group rule parts => .group rule (allUnder view parts)

def allUnder (view : View) : List Outline → List Outline
  | [] => []
  | part :: parts => under view part :: allUnder view parts

end

end Outline

/-! ## Fields -/

section Fields

variable (view : View)

@[simp] theorem Token.under_type (token : Token) : (token.under view).type = token.type := rfl

@[simp] theorem Token.under_text (token : Token) :
    (token.under view).text = view.text token.text := rfl

theorem Node.allUnder_eq (nodes : List Node) : allUnder view nodes = nodes.map (under view) := by
  induction nodes with
  | nil => rfl
  | cons node nodes ih => rw [allUnder, ih, List.map_cons]

theorem Node.under_eq (node : Node) :
    node.under view = ⟨node.kind, view.text node.text, view.line node.line,
      view.column node.column, view.place node.tokenIndex, node.children.map (under view)⟩ := by
  cases node
  rw [under, allUnder_eq]

@[simp] theorem Node.under_kind (node : Node) : (node.under view).kind = node.kind := by
  rw [under_eq]

@[simp] theorem Node.under_children (node : Node) :
    (node.under view).children = node.children.map (under view) := by
  rw [under_eq]

@[simp] theorem Node.under_ofToken (kind : Kind) (token : Token) :
    (ofToken kind token).under view = ofToken kind (token.under view) := by
  simp [under_eq, ofToken, Token.under]

@[simp] theorem Node.under_addChildren (node : Node) (nodes : List Node) :
    (node.addChildren nodes).under view =
      (node.under view).addChildren (nodes.map (under view)) := by
  simp [under_eq, addChildren]

@[simp] theorem Node.under_addChild (node child : Node) :
    (node.addChild child).under view = (node.under view).addChild (child.under view) := by
  simp [under_eq, addChild]

@[simp] theorem Node.under_settle (token : Token) (node : Node) :
    (node.settle token).under view = (node.under view).settle (token.under view) := by
  have hindex : (node.under view).tokenIndex < 0 ↔ node.tokenIndex < 0 := by
    rw [under_eq]
    exact view.place_neg _
  unfold settle
  by_cases hneg : node.tokenIndex < 0
  · rw [if_pos hneg, if_pos (hindex.2 hneg)]
    simp [under_eq, moveTo, Token.under]
  · rw [if_neg hneg, if_neg (mt hindex.1 hneg)]

theorem Node.anchor_eq (token : Token) (node : Node) :
    node.anchor token = ⟨node.kind, node.text, token.line, token.column, token.index,
      node.children.map (settle token)⟩ := rfl

@[simp] theorem Node.under_anchor (token : Token) (node : Node) :
    (node.anchor token).under view = (node.under view).anchor (token.under view) := by
  rw [anchor_eq, anchor_eq, under_eq, under_children, under_kind, List.map_map, List.map_map]
  have hchildren : node.children.map (under view ∘ settle token) =
      node.children.map (settle (token.under view) ∘ under view) :=
    List.map_congr_left fun child _ => under_settle view token child
  simp [hchildren, Token.under, under_eq]

@[simp] theorem Node.under_pair (sign : Token) (left right : Node) :
    (Assemble.pair sign left right).under view =
      Assemble.pair (sign.under view) (left.under view) (right.under view) := by
  simp [Assemble.pair]

@[simp] theorem Item.tokens_under (items : List Item) :
    Item.tokens (items.map (Item.under view)) = (Item.tokens items).map (Token.under view) := by
  induction items with
  | nil => rfl
  | cons item items ih => cases item <;> simp [Item.under, ih]

@[simp] theorem Item.nodes_under (items : List Item) :
    Item.nodes (items.map (Item.under view)) = (Item.nodes items).map (Node.under view) := by
  induction items with
  | nil => rfl
  | cons item items ih => cases item <;> simp [Item.under, ih]

@[simp] theorem Item.tokensOf_under (types : List Terminal) (items : List Item) :
    Item.tokensOf types (items.map (Item.under view)) =
      (Item.tokensOf types items).map (Token.under view) := by
  rw [Item.tokensOf, Item.tokens_under, List.filter_map]
  rfl

theorem Item.mem_of_mem_tokensOf {types : List Terminal} {items : List Item} {token : Token}
    (h : token ∈ Item.tokensOf types items) : token ∈ Item.tokens items :=
  List.mem_of_mem_filter h

end Fields

/-! ## Views that are undone -/

def View.same : View := ⟨id, id, id, id⟩

structure View.Undoes (back view : View) : Prop where
  text : ∀ text, back.text (view.text text) = text
  line : ∀ line, back.line (view.line line) = line
  column : ∀ column, back.column (view.column column) = column
  index : ∀ index, back.index (view.index index) = index

theorem View.Undoes.place {back view : View} (h : back.Undoes view) (index : Int) :
    back.place (view.place index) = index := by
  by_cases hneg : index < 0
  · simp [View.place, hneg]
  · obtain ⟨n, rfl⟩ := Int.eq_ofNat_of_zero_le (Int.not_lt.1 hneg)
    rw [place_natCast, place_natCast, h.index]

theorem Token.under_undone {back view : View} (h : back.Undoes view) (token : Token) :
    (token.under view).under back = token := by
  simp [Token.under, h.text, h.line, h.column, h.index]

namespace Node

mutual

theorem under_undone {back view : View} (h : back.Undoes view) :
    (node : Node) → (node.under view).under back = node
  | ⟨kind, text, line, column, index, children⟩ => by
      rw [under, under, h.text, h.line, h.column, h.place, allUnder_undone h children]

theorem allUnder_undone {back view : View} (h : back.Undoes view) :
    (nodes : List Node) → allUnder back (allUnder view nodes) = nodes
  | [] => rfl
  | node :: nodes => by rw [allUnder, allUnder, under_undone h node, allUnder_undone h nodes]

end

end Node

namespace Outline

mutual

theorem under_same : (part : Outline) → part.under .same = part
  | .token _ => rfl
  | .group _ parts => by rw [under, allUnder_same parts]

theorem allUnder_same : (parts : List Outline) → allUnder .same parts = parts
  | [] => rfl
  | part :: parts => by rw [allUnder, under_same part, allUnder_same parts]

end

end Outline

/-! ## Putting nodes together -/

/-- Text and view of a token agree as far as nodes are read off the text. -/
structure View.Suits (view : View) (token : Token) : Prop where
  reference : referenceKind (view.text token.text) = referenceKind token.text
  literal : token.type ∉ blockTypes →
    literalKind (view.text token.text) = literalKind token.text
  inside : String.ofList (view.text token.text).toList.tail.dropLast =
    view.text (String.ofList token.text.toList.tail.dropLast)

theorem Node.under_ofBlock {view : View} {token : Token} (h : view.Suits token) (kind : Kind) :
    (ofBlock kind token).under view = ofBlock kind (token.under view) := by
  simp [under_eq, ofBlock, ofToken, Token.under, h.inside]

namespace Assemble

variable {view : View} {items : List Item}

theorem grammarFile_under :
    grammarFile (items.map (Item.under view)) = (grammarFile items).map (Node.under view) := by
  simp only [grammarFile, Item.nodes_under]
  cases Item.nodes items <;> simp

theorem grammarHead_under :
    grammarHead (items.map (Item.under view)) = (grammarHead items).map (Node.under view) := by
  simp only [grammarHead, Item.tokens_under, Item.tokensOf_under]
  cases Item.tokens items <;> cases Item.tokensOf [.identifier] items <;> simp
  rename_i first _ name _
  cases grammarKind? first.type <;> simp

theorem listing_under (keyword : Keyword) (kind : Kind) :
    listing keyword kind (items.map (Item.under view)) =
      (listing keyword kind items).map (Node.under view) := by
  simp only [listing, Item.tokensOf_under, Item.nodes_under]
  cases Item.tokensOf [.keyword keyword] items <;> simp

theorem option_under (h : ∀ token ∈ Item.tokens items, view.Suits token) :
    option (items.map (Item.under view)) = (option items).map (Node.under view) := by
  simp only [option, Item.tokens_under]
  match htokens : Item.tokens items with
  | [] | [_] | [_, _] => rfl
  | key :: sign :: value :: rest =>
      have hvalue : optionKind (value.under view) = optionKind value := by
        have hsuits := h value (by simp [htokens])
        simp only [optionKind, Token.under_type, Token.under_text]
        split
        · exact hsuits.literal (by simp [‹value.type = _›, blockTypes])
        all_goals rfl
      simp [hvalue]

theorem delegate_under :
    delegate (items.map (Item.under view)) = (delegate items).map (Node.under view) := by
  simp only [delegate, Item.tokens_under]
  match Item.tokens items with
  | [] | [_, _] | _ :: _ :: _ :: _ :: _ => rfl
  | [name] => simp
  | [short, sign, name] => simp

theorem tokenSpec_under
    (h : ∀ token ∈ Item.tokens items, literalKind (view.text token.text) = literalKind token.text) :
    tokenSpec (items.map (Item.under view)) = (tokenSpec items).map (Node.under view) := by
  simp only [tokenSpec, Item.tokens_under]
  match htokens : Item.tokens items with
  | [] | [_] => rfl
  | [name, next] =>
      by_cases hassign : next.type = .mark .assign <;> simp [hassign]
  | name :: next :: literal :: rest =>
      have hliteral := h literal (by simp [htokens])
      by_cases hassign : next.type = .mark .assign <;> simp [hassign, hliteral]

theorem grammarScope_under (h : ∀ token ∈ Item.tokens items, view.Suits token) :
    grammarScope (items.map (Item.under view)) = (grammarScope items).map (Node.under view) := by
  simp only [grammarScope, Item.tokensOf_under]
  match htokens : Item.tokensOf [.keyword .scope, .identifier, .actionBlock] items with
  | [] | [_] | [_, _] | _ :: _ :: _ :: _ :: _ => rfl
  | [keyword, name, action] =>
      have haction := h action (Item.mem_of_mem_tokensOf (by rw [htokens]; simp))
      simp [Node.under_ofBlock haction]

theorem actionSpec_under (h : ∀ token ∈ Item.tokens items, view.Suits token) :
    actionSpec (items.map (Item.under view)) = (actionSpec items).map (Node.under view) := by
  simp only [actionSpec, Item.tokensOf_under]
  match Item.tokensOf [.mark .atSign] items, htokens : Item.tokensOf [.actionBlock] items with
  | [], _ | _ :: _, [] => rfl
  | sign :: _, action :: _ =>
      have haction := h action (Item.mem_of_mem_tokensOf (by rw [htokens]; simp))
      simp [Node.under_ofBlock haction, Function.comp_def]

theorem ruleParts_under (view : View) (colon end? : Option Token) (items : List Item) :
    ruleParts (colon.map (Token.under view)) (end?.map (Token.under view))
        (items.map (Item.under view)) =
      ((ruleParts colon end? items).1.map (Node.under view),
        (ruleParts colon end? items).2.map (Token.under view)) := by
  induction items generalizing colon end? with
  | nil => rfl
  | cons item items ih =>
      cases item with
      | token sign =>
          simp only [List.map_cons, Item.under, ruleParts, Token.under_type]
          split
          · exact ih (some sign) end?
          · exact ih colon (some sign)
          · exact ih colon end?
      | node part =>
          simp only [List.map_cons, Item.under, ruleParts, ih, Node.under_kind]
          cases colon with
          | none => simp
          | some sign => cases hkind : part.kind <;> simp

theorem endNode_under (hview : view.Plain) (token : Token) :
    (endNode token).under view = endNode (token.under view) := by
  simp [Node.under_eq, endNode, Node.ofToken, Token.under, hview.text_end]

theorem ruleSpec_eq (items : List Item) :
    ruleSpec items = (Item.tokensOf [.identifier] items).head?.map fun name =>
      (Node.ofToken .rule name).addChildren (.ofToken .id name :: (ruleParts none none items).1 ++
        (ruleParts none none items).2.toList.map endNode) := by
  unfold ruleSpec
  cases Item.tokensOf [.identifier] items <;> rfl

theorem ruleSpec_under (hview : view.Plain) :
    ruleSpec (items.map (Item.under view)) = (ruleSpec items).map (Node.under view) := by
  have hparts := ruleParts_under view none none items
  simp only [Option.map_none] at hparts
  rw [ruleSpec_eq, ruleSpec_eq, hparts, Item.tokensOf_under]
  cases Item.tokensOf [.identifier] items with
  | nil => rfl
  | cons name rest =>
      cases (ruleParts none none items).2 <;> simp [endNode_under hview]

theorem ruleModifier_under :
    ruleModifier (items.map (Item.under view)) = (ruleModifier items).map (Node.under view) := by
  simp only [ruleModifier, Item.tokens_under]
  cases Item.tokens items with
  | nil => rfl
  | cons first rest => cases hkind : modifierKind? first.type <;> simp [hkind]

theorem ruleBang_under :
    ruleBang (items.map (Item.under view)) = (ruleBang items).map (Node.under view) := by
  simp only [ruleBang, Item.tokens_under]
  cases Item.tokens items <;> simp

theorem ruleArgs_under (h : ∀ token ∈ Item.tokens items, view.Suits token) :
    ruleArgs (items.map (Item.under view)) = (ruleArgs items).map (Node.under view) := by
  simp only [ruleArgs, Item.tokens_under]
  cases htokens : Item.tokens items with
  | nil => rfl
  | cons args rest =>
      have hargs := h args (by simp [htokens])
      simp [Node.under_ofBlock hargs]

theorem returnsSpec_under (h : ∀ token ∈ Item.tokens items, view.Suits token) :
    returnsSpec (items.map (Item.under view)) = (returnsSpec items).map (Node.under view) := by
  simp only [returnsSpec, Item.tokens_under]
  match htokens : Item.tokens items with
  | [] | [_] | _ :: _ :: _ :: _ => rfl
  | [keyword, args] =>
      have hargs := h args (by simp [htokens])
      simp [Node.under_ofBlock hargs]

theorem throwsSpec_under :
    throwsSpec (items.map (Item.under view)) = (throwsSpec items).map (Node.under view) := by
  simp only [throwsSpec, Item.tokensOf_under]
  cases Item.tokensOf [.keyword .throws, .qualifiedId] items <;> simp [Function.comp_def]

theorem scopePart?_under {token : Token} (h : view.Suits token) :
    scopePart? (token.under view) = (scopePart? token).map (Node.under view) := by
  simp only [scopePart?, Token.under_type]
  split
  · simp [Node.under_ofBlock h]
  · simp
  · rfl

theorem ruleScope_under (h : ∀ token ∈ Item.tokens items, view.Suits token) :
    ruleScope (items.map (Item.under view)) = (ruleScope items).map (Node.under view) := by
  simp only [ruleScope, Item.tokens_under]
  cases htokens : Item.tokens items with
  | nil => rfl
  | cons keyword rest =>
      have hparts : rest.filterMap (fun token => scopePart? (token.under view)) =
          rest.filterMap (fun token => (scopePart? token).map (Node.under view)) :=
        List.filterMap_congr fun token htoken =>
          scopePart?_under (h token (by simp [htokens, htoken]))
      simp [List.filterMap_map, hparts, List.map_filterMap]

theorem catchClause_under (h : ∀ token ∈ Item.tokens items, view.Suits token) :
    catchClause (items.map (Item.under view)) = (catchClause items).map (Node.under view) := by
  simp only [catchClause, Item.tokens_under]
  match htokens : Item.tokens items with
  | [] | [_] | [_, _] | _ :: _ :: _ :: _ :: _ => rfl
  | [keyword, args, action] =>
      have hargs := h args (by simp [htokens])
      have haction := h action (by simp [htokens])
      simp [Node.under_ofBlock hargs, Node.under_ofBlock haction]

theorem finallyClause_under (h : ∀ token ∈ Item.tokens items, view.Suits token) :
    finallyClause (items.map (Item.under view)) = (finallyClause items).map (Node.under view) := by
  simp only [finallyClause, Item.tokens_under]
  match htokens : Item.tokens items with
  | [] | [_] | _ :: _ :: _ :: _ => rfl
  | [keyword, action] =>
      have haction := h action (by simp [htokens])
      simp [Node.under_ofBlock haction]

theorem altList_under (hview : view.Plain) :
    altList (items.map (Item.under view)) = (altList items).under view := by
  simp [altList, Node.under_eq, hview.line_zero, hview.column_zero, hview.text_block, View.place]

theorem alternative_under (hview : view.Plain) :
    alternative (items.map (Item.under view)) = (alternative items).under view := by
  simp only [alternative, Item.nodes_under]
  cases Item.nodes items with
  | nil => simp [Node.under_eq, hview.line_zero, hview.column_zero, hview.text_alt, View.place]
  | cons first rest => simp [Node.under_eq, hview.text_alt]

theorem subrule_under :
    subrule (items.map (Item.under view)) = (subrule items).map (Node.under view) := by
  simp only [subrule, Item.nodes_under, List.getLast?_map]
  match items, (Item.nodes items).getLast? with
  | [], _ => rfl
  | .node _ :: _, _ => rfl
  | .token _ :: _, none => rfl
  | .token opening :: rest, some block =>
      simp [Item.under]
      rfl

theorem atom_under (h : ∀ token ∈ Item.tokens items, view.Suits token) :
    atom (items.map (Item.under view)) = (atom items).map (Node.under view) := by
  simp only [atom, Item.tokens_under]
  cases htokens : Item.tokens items with
  | nil => rfl
  | cons first rest =>
      have hfirst := h first (by simp [htokens])
      simp only [List.map_cons, Token.under_type, Token.under_text]
      split
      · simp [hfirst.reference]
      · simp [Node.under_ofBlock hfirst]
      · simp [Node.under_ofBlock hfirst]
      · simp [hfirst.literal (by simp [‹first.type = _›, blockTypes])]
      · simp
      · simp
      · rename_i sign _
        cases operatorKind? sign <;> simp
      · rfl

end Assemble

section Assembling

variable {view : View}

theorem assemble_under (hview : view.Plain) {rule : Rule} {items : List Item}
    (h : ∀ token ∈ Item.tokens items, view.Suits token)
    (hliterals : rule = .tokenSpec → ∀ token ∈ Item.tokens items,
      literalKind (view.text token.text) = literalKind token.text) :
    assemble rule (items.map (Item.under view)) =
      (assemble rule items).map (·.map (Item.under view)) := by
  have hsingle {node other : Option Node} (hnode : other = node.map (Node.under view)) :
      (other.map fun n => [Item.node n]) =
        (node.map fun n => [Item.node n]).map (·.map (Item.under view)) := by
    rw [hnode]
    cases node <;> rfl
  cases rule with
  | grammarFile => exact hsingle Assemble.grammarFile_under
  | grammarHead => exact hsingle Assemble.grammarHead_under
  | optionsSpec => exact hsingle (Assemble.listing_under _ _)
  | option => exact hsingle (Assemble.option_under h)
  | importSpec => exact hsingle (Assemble.listing_under _ _)
  | delegate => exact hsingle Assemble.delegate_under
  | tokensSpec => exact hsingle (Assemble.listing_under _ _)
  | tokenSpec => exact hsingle (Assemble.tokenSpec_under (hliterals rfl))
  | grammarScope => exact hsingle (Assemble.grammarScope_under h)
  | actionSpec => exact hsingle (Assemble.actionSpec_under h)
  | ruleSpec => exact hsingle (Assemble.ruleSpec_under hview)
  | ruleModifier => exact hsingle Assemble.ruleModifier_under
  | ruleBang => exact hsingle Assemble.ruleBang_under
  | ruleArgs => exact hsingle (Assemble.ruleArgs_under h)
  | returnsSpec => exact hsingle (Assemble.returnsSpec_under h)
  | throwsSpec => exact hsingle Assemble.throwsSpec_under
  | ruleScope => exact hsingle (Assemble.ruleScope_under h)
  | catchClause => exact hsingle (Assemble.catchClause_under h)
  | finallyClause => exact hsingle (Assemble.finallyClause_under h)
  | altList => exact congrArg (fun n => some [Item.node n]) (Assemble.altList_under hview)
  | alternative => exact congrArg (fun n => some [Item.node n]) (Assemble.alternative_under hview)
  | subrule => exact hsingle Assemble.subrule_under
  | atom => exact hsingle (Assemble.atom_under h)
  | _ => rfl

theorem tokens_subset_of_assemble {rule : Rule} {items found : List Item}
    (h : assemble rule items = some found) : Item.tokens found ⊆ Item.tokens items := by
  have hsingle {node : Option Node} (hnode : (node.map fun n => [Item.node n]) = some found) :
      Item.tokens found ⊆ Item.tokens items := by
    obtain ⟨n, -, rfl⟩ := Option.map_eq_some_iff.1 hnode
    exact List.nil_subset _
  cases rule with
  | terminal | trivia | grammarType | prequel | optionValue | exceptionGroup | element |
    subruleOptions | operator | actionChunk | actionNested | actionString | actionComment |
    actionText | actionQuote | argChunk | argNested | argText =>
      cases h
      exact List.Subset.refl _
  | altList | alternative =>
      cases h
      exact List.nil_subset _
  | _ => exact hsingle h

end Assembling

/-! ## Outlines -/

namespace Outline

variable {view : View}

mutual

def Suited (view : View) : Outline → Prop
  | .token value => view.Suits value
  | .group rule parts =>
      AllSuited view parts ∧ (rule = .tokenSpec → ∀ token ∈ allTokens parts,
        literalKind (view.text token.text) = literalKind token.text)

def AllSuited (view : View) : List Outline → Prop
  | [] => True
  | part :: parts => Suited view part ∧ AllSuited view parts

end

mutual

theorem tokens_items_subset : (part : Outline) → {found : List Item} →
    part.items = some found → Item.tokens found ⊆ tokensBefore [] part
  | .token value, found, h => by
      cases h
      exact List.Subset.refl _
  | .group rule parts, found, h => by
      rw [items] at h
      split at h
      · exact List.Subset.trans (tokens_subset_of_assemble h) (tokens_itemsOf_subset parts ‹_›)
      · cases h

theorem tokens_itemsOf_subset : (parts : List Outline) → {found : List Item} →
    itemsOf parts = some found → Item.tokens found ⊆ allTokensBefore [] parts
  | [], found, h => by
      cases h
      exact List.Subset.refl _
  | part :: parts, found, h => by
      rw [itemsOf] at h
      split at h
      · cases h
        rename_i first rest hfirst hrest
        rw [allTokensBefore, tokensBefore_eq, Item.tokens_append]
        exact List.append_subset.2
          ⟨List.subset_append_of_subset_left _ (tokens_items_subset part hfirst),
            List.subset_append_of_subset_right _ (tokens_itemsOf_subset parts hrest)⟩
      · cases h

end

mutual

theorem suits_of_suited : (part : Outline) → Suited view part →
    ∀ token ∈ tokensBefore [] part, view.Suits token
  | .token value, h => by
      intro token htoken
      rw [tokensBefore, List.mem_singleton] at htoken
      exact htoken ▸ h
  | .group rule parts, h => suits_of_allSuited parts h.1

theorem suits_of_allSuited : (parts : List Outline) → AllSuited view parts →
    ∀ token ∈ allTokensBefore [] parts, view.Suits token
  | [], _ => by
      intro token htoken
      cases htoken
  | part :: parts, h => by
      intro token htoken
      rw [allTokensBefore, tokensBefore_eq, List.mem_append] at htoken
      exact htoken.elim (suits_of_suited part h.1 token) (suits_of_allSuited parts h.2 token)

end

mutual

theorem items_under (hview : view.Plain) : (part : Outline) → Suited view part →
    (part.under view).items = part.items.map (·.map (Item.under view))
  | .token value, _ => rfl
  | .group rule parts, h => by
      rw [under, items, items, itemsOf_under hview parts h.1]
      cases hitems : itemsOf parts with
      | none => rfl
      | some found =>
          have hsubset := tokens_itemsOf_subset parts hitems
          exact assemble_under hview
            (fun token htoken => suits_of_allSuited parts h.1 token (hsubset htoken))
            (fun hrule token htoken => h.2 hrule token (hsubset htoken))

theorem itemsOf_under (hview : view.Plain) : (parts : List Outline) → AllSuited view parts →
    itemsOf (allUnder view parts) = (itemsOf parts).map (·.map (Item.under view))
  | [], _ => rfl
  | part :: parts, h => by
      rw [allUnder, itemsOf, itemsOf, items_under hview part h.1, itemsOf_under hview parts h.2]
      cases items part <;> cases itemsOf parts <;> simp

end

mutual

theorem tokensBefore_under : (part : Outline) →
    tokensBefore [] (part.under view) = (tokensBefore [] part).map (Token.under view)
  | .token _ => rfl
  | .group _ parts => allTokensBefore_under parts

theorem allTokensBefore_under : (parts : List Outline) →
    allTokensBefore [] (allUnder view parts) =
      (allTokensBefore [] parts).map (Token.under view)
  | [] => rfl
  | part :: parts => by
      rw [allUnder, allTokensBefore, allTokensBefore, tokensBefore_eq,
        tokensBefore_eq (allTokensBefore [] parts), tokensBefore_under part,
        allTokensBefore_under parts, List.map_append]

end

theorem allTokens_under (parts : List Outline) :
    allTokens (allUnder view parts) = (allTokens parts).map (Token.under view) :=
  allTokensBefore_under parts

mutual

theorem suited_of_text (h : ∀ text, view.text text = text) : (part : Outline) → Suited view part
  | .token _ => ⟨by rw [h], fun _ => by rw [h], by rw [h, h]⟩
  | .group _ parts => ⟨allSuited_of_text h parts, fun _ token _ => by rw [h]⟩

theorem allSuited_of_text (h : ∀ text, view.text text = text) :
    (parts : List Outline) → AllSuited view parts
  | [] => trivial
  | part :: parts => ⟨suited_of_text h part, allSuited_of_text h parts⟩

end

@[simp] theorem allUnder_append (parts more : List Outline) :
    allUnder view (parts ++ more) = allUnder view parts ++ allUnder view more := by
  induction parts with
  | nil => rfl
  | cons part parts ih => simp [allUnder, ih]

theorem allSuited_append {parts more : List Outline} :
    AllSuited view (parts ++ more) ↔ AllSuited view parts ∧ AllSuited view more := by
  induction parts with
  | nil => simp [AllSuited]
  | cons part parts ih => simp [AllSuited, ih, and_assoc]

end Outline

end GrammarLint
