import GrammarLint.Proofs.Places
import GrammarLint.Proofs.Printed
import GrammarLint.Proofs.Setup

/-!
# Silent checks

What the checks look at in a grammar that is written by the conventions, and that
none of them finds anything to remark.
-/

namespace GrammarLint

open Grammar Text

@[simp] theorem remarkIf_false (line : Int) (message : String) :
    remarkIf false line message = [] := rfl

namespace Layout

/-! ## Entries -/

section Entries

variable {entry sign left right : Node}

theorem TidyPair.sides?_eq (h : TidyPair sign left right) : sign.sides? = some (left, right) := by
  rw [Node.sides?, h.children_eq]

theorem sides?_of_leaf (h : entry.children = []) : entry.sides? = none := by
  rw [Node.sides?, h]

theorem TidyPair.judgePair (h : TidyPair sign left right) (block : Check.Indentation.Block) :
    Check.Indentation.judgePair block sign left right = [] := by
  simp [Check.Indentation.judgePair, Check.Indentation.wrapped, h.column_eq, h.left_line,
    h.right_line]

theorem TidyEntry.judgeOption (h : TidyEntry entry) : Check.Indentation.judgeOption entry = [] := by
  unfold Check.Indentation.judgeOption
  rcases h with ⟨left, right, hpair⟩ | ⟨hleaf, -⟩
  · rw [hpair.kind_eq, hpair.sides?_eq]
    exact hpair.judgePair _
  · simp [sides?_of_leaf hleaf]

theorem TidyEntry.judgeToken (h : TidyEntry entry) : Check.Indentation.judgeToken entry = [] := by
  unfold Check.Indentation.judgeToken
  rcases h with ⟨left, right, hpair⟩ | ⟨hleaf, hcolumn⟩
  · rw [hpair.sides?_eq]
    exact hpair.judgePair _
  · simp [sides?_of_leaf hleaf, hcolumn]

theorem TidyEntry.judgeEntry (h : TidyEntry entry) (pairType : String) :
    Check.Spacing.judgeEntry pairType true entry = [] := by
  unfold Check.Spacing.judgeEntry
  rcases h with ⟨left, right, hpair⟩ | ⟨hleaf, -⟩
  · rw [hpair.kind_eq, hpair.sides?_eq]
    simp [Check.Spacing.judgeGap, hpair.left_line, hpair.right_line, hpair.left_apart,
      hpair.right_apart]
  · simp [sides?_of_leaf hleaf]

end Entries

/-! ## Names -/

theorem isUpperCase_text {name : Name} (h : name.chars.any Char.isLower = false) :
    isUpperCase name.text = true := by
  simp only [isUpperCase, Name.text, String.toList_ofList, List.all_eq_true]
  intro c hc
  have hascii := (toNat_of_isIdentPart (all_isIdentPart name.valid c hc)).2
  have hlower := List.any_eq_false.1 h c hc
  simp [changesInUpper_of_ascii hascii, hlower]

theorem judge_name {layout : Layout} {node : Node} {entry : (Name × Literal) ⊕ Name}
    (hbare : node.bare = entryNode entry) (hentry : entry ∈ layout.entries) :
    Check.TokenNames.judge node = [] := by
  unfold Check.TokenNames.judge
  cases entry with
  | inl pair =>
      have hsome : node.children.isEmpty = false := by
        cases hchildren : node.children with
        | nil =>
            have hbares := congrArg Node.children hbare
            simp [hchildren, entryNode, pairNode] at hbares
        | cons => rfl
      rw [hsome]
      rfl
  | inr name =>
      have htext : node.text = name.text := by
        rw [← node.bare_text, hbare]
        rfl
      have hname : name ∈ layout.imaginary := by simpa [entries] using hentry
      simp [htext, isUpperCase_text (layout.imaginary_upper name hname)]

/-! ## Order -/

section Order

open Check.TokenOrder

/-- The entry may stand after the other: no pair after an imaginary token, and no
name before a smaller one of its sort. -/
structure Follows (previous entry : Entry) : Prop where
  unmixed : previous.imaginary = true → entry.imaginary = true
  sorted : previous.imaginary = entry.imaginary → ¬entry.name < previous.name

theorem judgeStep_of_follows {previous entry : Entry} (h : Follows previous entry)
    (reported : Reported) : judgeStep reported previous entry = (reported, []) := by
  obtain ⟨hunmixed, hsorted⟩ := h
  unfold judgeStep
  cases hprevious : previous.imaginary <;> cases hentry : entry.imaginary <;> simp_all

theorem judgeFrom_of_follows {previous : Entry} {entries : List Entry}
    (h : (previous :: entries).Pairwise Follows) (reported : Reported) :
    judgeFrom reported previous entries = [] := by
  induction entries generalizing previous with
  | nil => rfl
  | cons entry entries ih =>
      rw [List.pairwise_cons] at h
      rw [judgeFrom, judgeStep_of_follows (h.1 entry List.mem_cons_self)]
      exact ih h.2

theorem judge_of_follows {entries : List Entry} (h : entries.Pairwise Follows) :
    judge entries = [] := by
  cases entries with
  | nil => rfl
  | cons entry entries => exact judgeFrom_of_follows h _

theorem follows_bare {first second : Node}
    (h : Follows (.ofNode first.bare) (.ofNode second.bare)) :
    Follows (.ofNode first) (.ofNode second) := by
  have hname (node : Node) : (Entry.ofNode node.bare).name = (Entry.ofNode node).name ∧
      (Entry.ofNode node.bare).imaginary = (Entry.ofNode node).imaginary := by
    simp only [Entry.ofNode, Node.sides?, Node.bare_children]
    rcases node.children with _ | ⟨left, _ | ⟨right, _ | ⟨other, others⟩⟩⟩ <;> simp
  obtain ⟨hunmixed, hsorted⟩ := h
  rw [(hname first).2, (hname second).2] at hunmixed hsorted
  rw [(hname first).1, (hname second).1] at hsorted
  exact ⟨hunmixed, hsorted⟩

theorem follows_entries (layout : Layout) :
    (layout.entries.map entryNode).Pairwise fun first second =>
      Follows (.ofNode first) (.ofNode second) := by
  have hle {names : List String} (h : names.Pairwise (· ≤ ·)) :
      names.Pairwise fun first second => ¬second < first := h
  rw [entries, List.map_append, List.map_map, List.map_map, List.pairwise_append]
  refine ⟨?_, ?_, ?_⟩
  · have hsorted := List.pairwise_map.1 (hle layout.pairs_sorted)
    refine List.pairwise_map.2 (hsorted.imp fun hless => ⟨?_, fun _ => hless⟩)
    intro h
    cases h
  · have hsorted := List.pairwise_map.1 (hle layout.imaginary_sorted)
    exact List.pairwise_map.2 (hsorted.imp fun hless => ⟨fun _ => rfl, fun _ => hless⟩)
  · intro first hfirst second hsecond
    obtain ⟨pair, -, rfl⟩ := List.mem_map.1 hfirst
    obtain ⟨name, -, rfl⟩ := List.mem_map.1 hsecond
    exact ⟨fun _ => rfl, fun h => by cases h⟩

end Order

/-! ## Delimiters -/

section Delimiters

open Check.Delimiters

variable {source : Source}

theorem TidyDelimiter.judge {delimiter : Node} (h : TidyDelimiter source.tokens.toList delimiter)
    (hknown : ∀ token ∈ source.tokens.toList, source.tokens.toList[token.index]? = some token)
    (symbol : String) : judge (some source) symbol delimiter = .silent := by
  obtain ⟨hcolumn, token, htoken, hindex, hline⟩ := h
  have hbefore : source.tokenBefore delimiter = .ok (some token) := by
    have hpositive : ¬delimiter.tokenIndex ≤ 0 := by omega
    have hplace : (delimiter.tokenIndex - 1).toNat = token.index := by omega
    have hget : source.tokens[token.index]? = some token := by
      rw [← Array.getElem?_toList]
      exact hknown token htoken
    rw [Source.tokenBefore, if_neg hpositive, hplace, hget]
  simp [Check.Delimiters.judge, hbefore, hline, hcolumn, Reaction.ofRemarks, Reaction.silent]

theorem TidyRule.enter {rule : Node} (h : TidyRule source.tokens.toList rule)
    (hknown : ∀ token ∈ source.tokens.toList, source.tokens.toList[token.index]? = some token) :
    Check.Delimiters.enter (some source) rule = .silent := by
  obtain ⟨block, closing, hblock, hclosing, htidy, htidy'⟩ := h
  simp only [Check.Delimiters.enter, hblock, hclosing, judgeIfPresent, htidy.judge hknown,
    htidy'.judge hknown]
  rfl

end Delimiters

/-! ## The whole tree -/

def watched : Kind → Bool
  | .options | .tokens | .rule => true
  | _ => false

def Unwatched (node : Node) : Prop :=
  ∀ below ∈ node.preorder, watched below.kind = false

theorem unwatched_iff {node : Node} :
    Unwatched node ↔ watched node.kind = false ∧ ∀ child ∈ node.children, Unwatched child :=
  Node.forall_mem_preorder

theorem unwatched_leaf {node : Node} (hkind : watched node.kind = false)
    (hleaf : node.children = []) : Unwatched node :=
  unwatched_iff.2 ⟨hkind, by simp [hleaf]⟩

theorem unwatched_pair {left right : Node} {text : String} (hleft : Unwatched left)
    (hright : Unwatched right) :
    Unwatched { kind := .assign, text, children := [left, right] } :=
  unwatched_iff.2 ⟨rfl, by simp [hleft, hright]⟩

theorem unwatched_option (entry : Name × Name) : Unwatched (optionNode entry) :=
  unwatched_pair (unwatched_leaf rfl rfl) (unwatched_leaf rfl rfl)

theorem unwatched_entry (entry : (Name × Literal) ⊕ Name) : Unwatched (entryNode entry) := by
  cases entry with
  | inl pair =>
      refine unwatched_pair (unwatched_leaf rfl rfl) (unwatched_leaf ?_ rfl)
      unfold literalNode
      split <;> rfl
  | inr name => exact unwatched_leaf rfl rfl

theorem unwatched_alternative (names : List Name) : Unwatched (alternativeNode names) := by
  refine unwatched_iff.2 ⟨rfl, fun child hchild => ?_⟩
  obtain ⟨name, -, rfl⟩ := List.mem_map.1 hchild
  refine unwatched_leaf ?_ rfl
  unfold referenceNode
  split <;> rfl

theorem unwatched_below (layout : Layout) :
    ∀ child ∈ layout.tree.children, ∀ entry ∈ child.children, Unwatched entry := by
  intro child hchild entry hentry
  simp only [tree, List.mem_cons, List.mem_append] at hchild
  rcases hchild with ((rfl | hchild) | hchild) | hchild
  · cases hentry
  · rw [children_of_mem_blockNodes hchild] at hentry
    obtain ⟨option, -, rfl⟩ := List.mem_map.1 hentry
    exact unwatched_option option
  · rw [children_of_mem_blockNodes hchild] at hentry
    rcases List.mem_append.1 hentry with hentry | hentry
    · obtain ⟨pair, -, rfl⟩ := List.mem_map.1 hentry
      exact unwatched_entry (.inl pair)
    · obtain ⟨name, -, rfl⟩ := List.mem_map.1 hentry
      exact unwatched_entry (.inr name)
  · obtain ⟨rule, -, rfl⟩ := List.mem_map.1 hchild
    simp only [ruleNode, List.mem_cons, List.not_mem_nil, or_false] at hentry
    rcases hentry with rfl | rfl | rfl
    · exact unwatched_leaf rfl rfl
    · refine unwatched_iff.2 ⟨rfl, fun alternative halternative => ?_⟩
      obtain ⟨names, -, rfl⟩ := List.mem_map.1 halternative
      exact unwatched_alternative names
    · exact unwatched_leaf rfl rfl

mutual

theorem preorder_bare : (node : Node) → node.bare.preorder = node.preorder.map Node.bare
  | ⟨kind, text, line, column, tokenIndex, children⟩ => by
      rw [Node.preorder_eq, Node.preorder_eq, List.map_cons]
      simp only [Node.bare_children]
      rw [preorders_bare children]

theorem preorders_bare : (nodes : List Node) →
    (nodes.map Node.bare).flatMap Node.preorder = (nodes.flatMap Node.preorder).map Node.bare
  | [] => rfl
  | node :: nodes => by
      rw [List.map_cons, List.flatMap_cons, List.flatMap_cons, List.map_append,
        preorder_bare node, preorders_bare nodes]

end

theorem mem_children_of_watched {layout : Layout} {root node : Node}
    (hroot : root.bare = layout.tree) (hnode : node ∈ root.preorder)
    (hwatched : watched node.kind = true) : node ∈ root.children := by
  rw [Node.preorder_eq] at hnode
  rcases List.mem_cons.1 hnode with rfl | hbelow
  · rw [← Node.bare_kind, hroot] at hwatched
    cases hwatched
  · obtain ⟨child, hchild, hbelow⟩ := List.mem_flatMap.1 hbelow
    rw [Node.preorder_eq] at hbelow
    rcases List.mem_cons.1 hbelow with rfl | hbelow
    · exact hchild
    · obtain ⟨entry, hentry, hbelow⟩ := List.mem_flatMap.1 hbelow
      have hchild' : child.bare ∈ layout.tree.children := by
        rw [← hroot, Node.bare_children]
        exact List.mem_map_of_mem hchild
      have hentry' : entry.bare ∈ child.bare.children := by
        rw [Node.bare_children]
        exact List.mem_map_of_mem hentry
      have hbelow' : node.bare ∈ entry.bare.preorder := by
        rw [preorder_bare]
        exact List.mem_map_of_mem hbelow
      have hno := unwatched_below layout _ hchild' _ hentry' _ hbelow'
      rw [Node.bare_kind, hwatched] at hno
      cases hno

end Layout

end GrammarLint
