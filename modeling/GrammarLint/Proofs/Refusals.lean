import GrammarLint.Proofs.Lexed
import GrammarLint.Proofs.Parallel

/-!
# Where attempts fail

What is read at a place does not depend on the number of characters before it, so that
failure is a property of the text alone; and it comes down to the failure of the parts.
-/

namespace GrammarLint.Grammar

open Text

/-! ## Places that differ by a shift -/

def Shifted (count more : Nat) (cursor other : Cursor) : Prop :=
  other.rest = cursor.rest ∧ other.offset + count = cursor.offset + more

theorem Shifted.moves {count more : Nat} {cursor other next after : Cursor}
    {taken found : List Char} (h : Shifted count more cursor other)
    (hmoves : Moves cursor taken next) (hother : Moves other found after)
    (hrest : after.rest = next.rest) : Shifted count more next after ∧ taken = found := by
  obtain ⟨hsame, hoffset⟩ := h
  have htaken : taken = found := by
    rw [hother.rest_eq, hmoves.rest_eq, hrest] at hsame
    exact (List.append_cancel_right hsame).symm
  refine ⟨⟨hrest, ?_⟩, htaken⟩
  have := hmoves.offset_eq
  have := hother.offset_eq
  subst htaken
  omega

theorem accord_shifted (count more : Nat) :
    Accord (Shifted count more) (fun offset other => other + count = offset + more) Eq :=
  Accord.of_edit id rfl Iff.rfl (fun _ _ => Option.map_id_apply.symm) (fun _ => rfl)
    (fun h => h.1) (fun h => h.2) Shifted.moves

theorem Yields.refuses {expr : Expr} {cursor : Cursor} (h : Yields expr cursor none)
    (hvisible : expr.visible = true) : Refuses expr cursor.rest := by
  intro offset
  obtain ⟨_, hother, hagree⟩ := (accord_shifted cursor.offset offset).yields h hvisible
    (show Shifted _ _ cursor ⟨offset, cursor.rest⟩ from ⟨rfl, Nat.add_comm _ _⟩)
  cases hagree
  exact hother

/-! ## Parts that fail -/

section Parts

variable {first second more : Expr} {rule : Rule} {type : Terminal} {chars : List Char}

theorem refuses_rule : Refuses (.rule rule) chars ↔ Refuses rule.body chars := by
  refine ⟨fun h offset => ?_, Refuses.rule⟩
  cases h offset with
  | noRule hbody => exact hbody

theorem refuses_choice :
    Refuses (.choice first second) chars ↔ Refuses first chars ∧ Refuses second chars := by
  refine ⟨fun h => ⟨fun offset => ?_, fun offset => ?_⟩, fun h => h.1.choice h.2⟩
  · cases h offset with
    | second hfirst _ => exact hfirst
  · cases h offset with
    | second _ hsecond => exact hsecond

theorem refuses_seq (hvisible : second.visible = true) :
    Refuses (.seq first second) chars ↔
      ∀ offset trees next, Yields first ⟨offset, chars⟩ (some (trees, next)) →
        Refuses second next.rest := by
  constructor
  · intro h offset trees next hfirst
    cases h offset with
    | noFirst hnone => cases hnone.unique hfirst
    | noSecond hfirst' hsecond =>
        cases hfirst'.unique hfirst
        exact hsecond.refuses hvisible
  · intro h offset
    obtain ⟨result, hresult⟩ := Yields.total first ⟨offset, chars⟩
    cases result with
    | none => exact .noFirst hresult
    | some found => exact .noSecond hresult (h offset _ _ hresult found.2.offset)

theorem refuses_token :
    Refuses (.rule (.terminal type)) chars ↔ type.after? chars = none :=
  Terminal.refuses_iff_after?

theorem refuses_seq_token (hvisible : more.visible = true) :
    Refuses (.seq (.rule (.terminal type)) more) chars ↔
      ∀ rest, type.after? chars = some rest → Refuses more rest := by
  rw [refuses_seq hvisible]
  constructor
  · intro h rest hafter
    obtain ⟨taken, rfl⟩ := Terminal.exists_taken hafter
    obtain ⟨trees, hyields, -⟩ := Terminal.exists_yields hafter 0
    rw [← Rule.body_terminal] at hyields
    exact h 0 _ _ (.rule hyields)
  · intro h offset trees next hyields
    cases hyields with
    | rule hbody =>
        rw [Rule.body_terminal] at hbody
        exact h _ (Terminal.after?_of_yields hbody)

theorem refuses_seq_gap (hvisible : more.visible = true) :
    Refuses (.seq gap more) chars ↔ Refuses more (afterTrivia chars) := by
  rw [refuses_seq hvisible]
  constructor
  · intro h
    obtain ⟨trees, next, hyields, hrest⟩ := exists_yields_trivia ⟨0, chars⟩
    exact hrest ▸ h 0 _ _ (.rule hyields)
  · intro h offset trees next hyields
    cases hyields with
    | rule hbody =>
        rw [afterTrivia_of_yields hbody]
        exact h

theorem not_refuses_gap : ¬Refuses gap chars := by
  intro h
  obtain ⟨trees, next, hyields, -⟩ := exists_yields_trivia ⟨0, chars⟩
  cases (h 0).unique (.rule hyields)

theorem refuses_before_gap : Refuses (.seq first gap) chars ↔ Refuses first chars := by
  refine ⟨fun h => ?_, Refuses.seq⟩
  rw [refuses_seq rfl] at h
  exact refuses_iff.2 fun offset trees next hyields => not_refuses_gap (h offset trees next hyields)

theorem refuses_seq_rule (hvisible : more.visible = true) :
    Refuses (.seq (.rule rule) more) chars ↔ Refuses (.seq rule.body more) chars := by
  rw [refuses_seq hvisible, refuses_seq hvisible]
  constructor
  · intro h offset trees next hyields
    exact h offset _ next (.rule hyields)
  · intro h offset trees next hyields
    cases hyields with
    | rule hbody => exact h offset _ next hbody

theorem refuses_seq_assoc :
    Refuses (.seq (.seq first second) more) chars ↔
      Refuses (.seq first (.seq second more)) chars := by
  constructor
  · intro h offset
    cases h offset with
    | noFirst hnone =>
        cases hnone with
        | noFirst hfirst => exact .noFirst hfirst
        | noSecond hfirst hsecond => exact .noSecond hfirst (.noFirst hsecond)
    | noSecond hboth hmore =>
        cases hboth with
        | seq hfirst hsecond => exact .noSecond hfirst (.noSecond hsecond hmore)
  · intro h offset
    cases h offset with
    | noFirst hfirst => exact .noFirst (.noFirst hfirst)
    | noSecond hfirst hnone =>
        cases hnone with
        | noFirst hsecond => exact .noFirst (.noSecond hfirst hsecond)
        | noSecond hsecond hmore => exact .noSecond (.seq hfirst hsecond) hmore

theorem refuses_nil (hnullable : first.nullable = false) : Refuses first [] := by
  refine refuses_iff.2 fun offset trees next hyields => ?_
  have hmoves : [] = Tree.allChars trees ++ next.rest := hyields.moves.rest_eq
  rw [hyields.nullable (List.append_eq_nil_iff.1 hmoves.symm).1] at hnullable
  cases hnullable

theorem yields_optional_of_refuses {offset : Nat} (h : Refuses first chars) :
    Yields (.optional first) ⟨offset, chars⟩ (some ([], ⟨offset, chars⟩)) := by
  by_cases hend : chars = []
  · exact .optionalAtEnd hend
  · exact .optionalNone hend (h offset)

theorem yields_many_of_refuses {offset : Nat} (h : Refuses first chars) :
    Yields (.many first) ⟨offset, chars⟩ (some ([], ⟨offset, chars⟩)) := by
  by_cases hend : chars = []
  · exact .manyAtEnd hend
  · exact .manyNone hend (h offset)

end Parts

end GrammarLint.Grammar
