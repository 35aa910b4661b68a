import GrammarLint.Proofs.Places

/-!
# Lines of nodes

Every node of a text stands on one of its lines, as the token does that it comes from.
-/

namespace GrammarLint

def lastLine (text : String) : Nat :=
  text.toList.count '\n' + 1

theorem Covers.lines {before taken rest : List Char} {index : Nat} {tokens : List Token}
    (h : Covers before index tokens taken rest) :
    ∀ token ∈ tokens, 1 ≤ token.line ∧
      token.line + token.text.toList.count '\n' ≤ (before ++ taken).count '\n' + 1 := by
  induction h with
  | none => simp
  | trivia _ _ ih => simpa using ih
  | token _ hline _ _ ih =>
      rw [List.append_assoc] at ih
      refine List.forall_mem_cons.2 ⟨?_, ih⟩
      rw [hline, List.count_append, List.count_append]
      omega

/-- A node stands on a line of the text, and the code of an action does not go beyond
the last. -/
structure Node.OnLines (last : Nat) (node : Node) : Prop where
  positive : 1 ≤ node.line
  le_last : node.line ≤ last
  code : node.kind = .action → node.line + lastLine node.text ≤ last + 1

theorem Linked.onLines {tokens : List Token} {above : Option Node} {node : Node} {last : Nat}
    (h : Linked tokens above node)
    (htokens : ∀ token ∈ tokens, 1 ≤ token.line ∧
      token.line + token.text.toList.count '\n' ≤ last) : node.OnLines last := by
  by_cases hfree : node.tokenIndex = -1
  · obtain ⟨-, sign, place, -, -, -, hplace, -, hline, -⟩ := h.free_place hfree
    obtain ⟨hpositive, hlast⟩ := htokens sign (List.mem_of_getElem? hplace)
    refine ⟨by omega, by omega, fun hkind => ?_⟩
    cases hkind.symm.trans (h.free_iff.1 hfree).1
  · obtain ⟨token, place, -, hplace, hline, -, hshows⟩ := h.token hfree
    obtain ⟨hpositive, hlast⟩ := htokens token (List.mem_of_getElem? hplace)
    refine ⟨by omega, by omega, fun hkind => ?_⟩
    have htext : token.text.toList = '\x7b' :: node.text.toList ++ ['\x7d'] := by
      simpa [Shows, hkind] using hshows
    have hcount : token.text.toList.count '\n' = node.text.toList.count '\n' := by
      simp [htext]
    simp only [lastLine]
    omega

namespace Node

mutual

theorem root_or_child : (root : Node) → {node : Node} → node ∈ root.preorder →
    node = root ∨ ∃ parent ∈ root.preorder, node ∈ parent.children
  | ⟨kind, text, line, column, index, children⟩, node, h => by
      rw [preorder_eq ⟨kind, text, line, column, index, children⟩] at h ⊢
      rcases List.mem_cons.1 h with hroot | hbelow
      · exact .inl hroot
      · rcases child_or_below children hbelow with hchild | ⟨parent, hparent, hchild⟩
        · exact .inr ⟨_, List.mem_cons_self, hchild⟩
        · exact .inr ⟨parent, List.mem_cons_of_mem _ hparent, hchild⟩

theorem child_or_below : (nodes : List Node) → {node : Node} → node ∈ nodes.flatMap preorder →
    node ∈ nodes ∨ ∃ parent ∈ nodes.flatMap preorder, node ∈ parent.children
  | [], _, h => absurd h List.not_mem_nil
  | first :: nodes, node, h => by
      rw [List.flatMap_cons] at h ⊢
      rcases List.mem_append.1 h with hfirst | hlater
      · rcases root_or_child first hfirst with rfl | ⟨parent, hparent, hchild⟩
        · exact .inl List.mem_cons_self
        · exact .inr ⟨parent, List.mem_append_left _ hparent, hchild⟩
      · rcases child_or_below nodes hlater with hchild | ⟨parent, hparent, hchild⟩
        · exact .inl (List.mem_cons_of_mem _ hchild)
        · exact .inr ⟨parent, List.mem_append_right _ hparent, hchild⟩

end

end Node

theorem Source.linked {text : String} {file : Option String} {source : Source}
    (h : Source.parse text file = .ok source) :
    ∀ node ∈ source.root.preorder, ∃ above, Linked source.tokens.toList above node := by
  have hwhole : Whole source.tokens.toList source.root :=
    Source.holds_root inductive_placed h fun _ htoken => Source.known h htoken
  intro node hnode
  rcases source.root.root_or_child hnode with rfl | ⟨parent, hparent, hchild⟩
  · exact ⟨none, hwhole.owned.linked (by simp)⟩
  · exact ⟨some parent, hwhole.below parent hparent node hchild⟩

theorem Source.onLines {text : String} {file : Option String} {source : Source}
    (h : Source.parse text file = .ok source) :
    ∀ node ∈ source.root.preorder, node.OnLines (lastLine text) := by
  have htokens : ∀ token ∈ source.tokens.toList, 1 ≤ token.line ∧
      token.line + token.text.toList.count '\n' ≤ lastLine text := (Source.covers h).lines
  intro node hnode
  obtain ⟨_, hlinked⟩ := Source.linked h node hnode
  exact hlinked.onLines htokens

end GrammarLint
