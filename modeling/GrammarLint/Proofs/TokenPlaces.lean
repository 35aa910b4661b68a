import GrammarLint.Proofs.Tokenisation

/-!
# Where tokens stand

The line and the column of a token are those of one place in the text only, and tokens stand
one after the other.
-/

namespace GrammarLint

open Text

/-! ## Places in a text -/

namespace Text.Position

variable {chars before after : List Char}

theorem of_isPrefix (h : before <+: after) :
    before.count '\n' < after.count '\n' ∨
      before.count '\n' = after.count '\n' ∧
        sinceBreak after + before.length = sinceBreak before + after.length := by
  obtain ⟨more, rfl⟩ := h
  rw [List.count_append]
  by_cases hbreak : '\n' ∈ more
  · have := List.count_pos_iff.2 hbreak
    exact .inl (by omega)
  · have hcount := List.count_eq_zero.2 hbreak
    rw [sinceBreak_append hbreak, List.length_append]
    exact .inr (by omega)

theorem lt_of_column (hbefore : before <+: chars) (hafter : after <+: chars)
    (hline : before.count '\n' = after.count '\n')
    (hcolumn : sinceBreak before < sinceBreak after) :
    before <+: after ∧ before.length < after.length := by
  rcases List.prefix_or_prefix_of_prefix hbefore hafter with h | h
  · have hplace := of_isPrefix h
    exact ⟨h, by omega⟩
  · have hplace := of_isPrefix h
    have hlength := h.length_le
    omega

theorem unique (hbefore : before <+: chars) (hafter : after <+: chars)
    (hline : before.count '\n' = after.count '\n')
    (hcolumn : sinceBreak before = sinceBreak after) : before = after := by
  rcases List.prefix_or_prefix_of_prefix hbefore hafter with h | h
  · have hplace := of_isPrefix h
    exact h.eq_of_length (by omega)
  · have hplace := of_isPrefix h
    exact (h.eq_of_length (by omega)).symm

end Text.Position

/-! ## Places of tokens -/

/-- The token stands in the text after `before`, which gives its line and its column. -/
structure Token.After (chars before : List Char) (token : Token) : Prop where
  spelt : before ++ token.text.toList <+: chars
  line_eq : token.line = before.count '\n' + 1
  column_eq : token.column = Position.sinceBreak before

theorem Token.After.unique {chars before other : List Char} {token : Token}
    (h : token.After chars before) (hother : token.After chars other) : before = other := by
  have hline := h.line_eq.symm.trans hother.line_eq
  have hcolumn := h.column_eq.symm.trans hother.column_eq
  exact Position.unique ((List.prefix_append _ _).trans h.spelt)
    ((List.prefix_append _ _).trans hother.spelt) (by omega) (by omega)

/-- Tokens, each with the text before it: every one stands where it says, and after the
tokens before it. -/
structure Laid (chars : List Char) (laid : List (List Char × Token)) : Prop where
  after : ∀ entry ∈ laid, entry.2.After chars entry.1
  ordered : laid.Pairwise fun first second => first.1 ++ first.2.text.toList <+: second.1

theorem Covers.laid {before taken rest : List Char} {index : Nat} {tokens : List Token}
    (h : Covers before index tokens taken rest) :
    ∃ laid, laid.map Prod.snd = tokens ∧ Laid (before ++ taken) laid ∧
      ∀ entry ∈ laid, before <+: entry.1 := by
  induction h with
  | none => exact ⟨[], rfl, ⟨by simp, .nil⟩, by simp⟩
  | @trivia before gap taken _ _ _ _ _ ih =>
      obtain ⟨laid, htokens, hlaid, hbefore⟩ := ih
      refine ⟨laid, htokens, by simpa using hlaid, fun entry hentry => ?_⟩
      exact (List.prefix_append _ _).trans (hbefore entry hentry)
  | @token before taken _ token _ _ hline hcolumn _ ih =>
      obtain ⟨laid, rfl, hlaid, hbefore⟩ := ih
      rw [List.append_assoc] at hlaid
      refine ⟨(before, token) :: laid, rfl, ⟨List.forall_mem_cons.2 ⟨?_, hlaid.after⟩,
        List.pairwise_cons.2 ⟨hbefore, hlaid.ordered⟩⟩, ?_⟩
      · exact ⟨by simp, hline, hcolumn⟩
      · refine List.forall_mem_cons.2 ⟨List.prefix_rfl, fun entry hentry => ?_⟩
        exact (List.prefix_append _ _).trans (hbefore entry hentry)

theorem Source.laid {text : String} {file : Option String} {source : Source}
    (h : Source.parse text file = .ok source) :
    ∃ laid, laid.map Prod.snd = source.tokens.toList ∧ Laid text.toList laid := by
  obtain ⟨laid, htokens, hlaid, -⟩ := (Source.covers h).laid
  exact ⟨laid, htokens, hlaid⟩

end GrammarLint
