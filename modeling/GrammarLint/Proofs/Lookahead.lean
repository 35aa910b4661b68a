import GrammarLint.Proofs.OptionBlocks

/-!
# Attempts that look past their first token

Where a modifier, the scope of an action, the options of a subrule and a subrule fail,
said of the tokens in front.
-/

namespace GrammarLint.Grammar

open Text

def modifiers : List Keyword :=
  [.fragmentRule, .protectedRule, .publicRule, .privateRule]

theorem refuses_ruleModifier_iff {name rest : List Char} (hname : isName name = true)
    (hstops : Stops isWord rest) :
    Refuses (.rule .ruleModifier) (name ++ rest) ↔
      ∀ word ∈ modifiers, name ≠ word.text.toList := by
  have hword (word : Keyword) :
      Refuses (.rule (.terminal (.keyword word))) (name ++ rest) ↔ name ≠ word.text.toList := by
    rw [refuses_token, Terminal.after?_keyword word hname hstops]
    simp
  rw [refuses_rule]
  change Refuses (.seq (.choice (.rule (.terminal (.keyword .fragmentRule)))
    (.choice (.rule (.terminal (.keyword .protectedRule)))
      (.choice (.rule (.terminal (.keyword .publicRule)))
        (.rule (.terminal (.keyword .privateRule)))))) gap) _ ↔ _
  simp only [refuses_before_gap, refuses_choice, hword, modifiers, List.forall_mem_cons]
  simp

theorem refuses_actionScope_iff {chars : List Char} :
    Refuses actionScope chars ↔ ∀ rest, Terminal.identifier.after? chars = some rest →
      (Terminal.mark .doubleColon).after? (afterTrivia rest) = none := by
  change Refuses (.seq (.rule (.terminal .identifier))
    (.seq gap (.seq (.rule (.terminal (.mark .doubleColon))) gap))) chars ↔ _
  rw [refuses_seq_token rfl]
  refine forall₂_congr fun rest _ => ?_
  rw [refuses_seq_gap rfl, refuses_before_gap, refuses_token]

def optionsColon : Expr :=
  .seq optionsTail (.inOrder (Mark.expr .colon) [gap])

theorem refuses_subruleOptions_iff {chars : List Char} :
    Refuses (.rule .subruleOptions) chars ↔
      ∀ rest, (Terminal.keyword .options).after? chars = some rest →
        Refuses optionsColon (afterTrivia rest) := by
  rw [refuses_rule]
  change Refuses (.seq (.rule .optionsSpec) (.inOrder (Mark.expr .colon) [gap])) chars ↔ _
  rw [refuses_seq_rule rfl]
  change Refuses
    (.seq (.seq (.rule (.terminal (.keyword .options))) (.seq gap optionsTail)) _) _ ↔ _
  rw [refuses_seq_assoc, refuses_seq_token rfl]
  refine forall₂_congr fun rest _ => ?_
  rw [refuses_seq_assoc, refuses_seq_gap rfl]
  rfl

def subruleTail : Expr :=
  .inOrder gap
    [.optional (Rule.expr .subruleOptions), Rule.expr .altList, Mark.expr .rightParen, gap]

theorem refuses_subrule_iff {chars : List Char} :
    Refuses (.rule .subrule) chars ↔
      ∀ sign ∈ [Mark.treeBegin, .leftParen], ∀ rest, (Terminal.mark sign).after? chars = some rest →
        Refuses subruleTail rest := by
  rw [refuses_rule]
  change Refuses (.seq (.choice (.rule (.terminal (.mark .treeBegin)))
    (.rule (.terminal (.mark .leftParen)))) subruleTail) chars ↔ _
  rw [refuses_seq rfl]
  constructor
  · intro h sign hsign rest hafter
    obtain ⟨taken, rfl⟩ := Terminal.exists_taken hafter
    obtain ⟨trees, hyields, -⟩ := Terminal.exists_yields hafter 0
    rw [← Rule.body_terminal] at hyields
    simp only [List.mem_cons, List.not_mem_nil, or_false] at hsign
    rcases hsign with rfl | rfl
    · exact h 0 _ _ (.first (.rule hyields))
    · have hnone := Terminal.after?_of_apart hafter
        (by decide : Terminal.apart (.mark .treeBegin) (.mark .leftParen) = true)
      exact h 0 _ _ (.second (Terminal.refuses_iff_after?.2 hnone 0) (.rule hyields))
  · intro h offset trees next hyields
    have hterminal {sign : Mark}
        (hyields : Yields (.rule (.terminal (.mark sign))) ⟨offset, chars⟩ (some (trees, next))) :
        (Terminal.mark sign).after? chars = some next.rest := by
      cases hyields with
      | rule hbody =>
          rw [Rule.body_terminal] at hbody
          exact Terminal.after?_of_yields hbody
    cases hyields with
    | first hfirst => exact h _ List.mem_cons_self _ (hterminal hfirst)
    | second _ hsecond => exact h _ (by simp) _ (hterminal hsecond)

end GrammarLint.Grammar
