import GrammarLint.Proofs.Terminals
import GrammarLint.Proofs.Tokenisation
import GrammarLint.Proofs.Views

/-!
# Two texts read in parallel

`Similar` trees have the same rules and the same tokens, whatever trivia stands
between them; their outlines agree under views that hide what the tokens differ
in.  Where tokens and trivia of two texts correspond, everything that is read from
one text is read from the other, and the trees are similar.
-/

namespace GrammarLint

open Grammar Text

namespace Grammar

section Similarity

variable (place : Nat → Nat → Prop) (text : List Char → List Char → Prop)

/-- Trees that differ in trivia, in the inside of tokens, and as `place` and `text` say
in the offsets and the characters of tokens. -/
inductive Similar : List Tree → List Tree → Prop where
  | nil : Similar [] []
  | append {trees more others rest : List Tree} (hfirst : Similar trees others)
      (hsecond : Similar more rest) : Similar (trees ++ more) (others ++ rest)
  | terminal {type : Terminal} {offset other : Nat} {children inner : List Tree}
      (hplace : place offset other) (htext : text (Tree.allChars children) (Tree.allChars inner)) :
      Similar [.node (.terminal type) offset children] [.node (.terminal type) other inner]
  | trivia (offset other : Nat) (children inner : List Tree) :
      Similar [.node .trivia offset children] [.node .trivia other inner]
  | group {rule : Rule} (offset other : Nat) {children inner : List Tree}
      (hgrouping : rule.grouping = true) (hchildren : Similar children inner) :
      Similar [.node rule offset children] [.node rule other inner]

end Similarity

variable {place : Nat → Nat → Prop} {text : List Char → List Char → Prop}

theorem Similar.outline {trees others : List Tree} (h : Similar place text trees others)
    {lines breaks : LineIndex} {view other : View} {shift : Nat}
    (htoken : ∀ type offset offset' chars chars' index, place offset offset' → text chars chars' →
      (Outline.tokenOf lines type offset chars index).under view =
        (Outline.tokenOf breaks type offset' chars' (index + shift)).under other) (index : Nat) :
    Outline.allUnder view (Outline.ofTrees lines index trees).1 =
        Outline.allUnder other (Outline.ofTrees breaks (index + shift) others).1 ∧
      (Outline.ofTrees breaks (index + shift) others).2 =
        (Outline.ofTrees lines index trees).2 + shift := by
  induction h generalizing index with
  | nil => exact ⟨rfl, rfl⟩
  | append _ _ ihFirst ihSecond =>
      obtain ⟨hfirst, hnext⟩ := ihFirst index
      obtain ⟨hsecond, hlast⟩ := ihSecond (Outline.ofTrees lines index _).2
      rw [Outline.ofTrees_append, Outline.ofTrees_append, Outline.allUnder_append,
        Outline.allUnder_append, hfirst, hnext, hsecond]
      exact ⟨rfl, hlast⟩
  | terminal hplace htext =>
      rw [Outline.ofTrees_terminal, Outline.ofTrees_terminal]
      refine ⟨?_, Nat.add_right_comm _ _ _⟩
      simp only [Outline.allUnder, Outline.under, htoken _ _ _ _ _ index hplace htext]
  | trivia =>
      rw [Outline.ofTrees_trivia, Outline.ofTrees_trivia]
      exact ⟨rfl, rfl⟩
  | group _ _ hgrouping _ ih =>
      obtain ⟨hparts, hnext⟩ := ih index
      rw [Outline.ofTrees_group _ hgrouping, Outline.ofTrees_group _ hgrouping]
      refine ⟨?_, hnext⟩
      simp only [Outline.allUnder, Outline.under, hparts]

/-! ## Results that agree -/

section Agreement

variable (rel : Cursor → Cursor → Prop) (place : Nat → Nat → Prop)
  (text : List Char → List Char → Prop)

/-- Both fail, or both match similar trees up to related cursors. -/
inductive Agree : Option (List Tree × Cursor) → Option (List Tree × Cursor) → Prop where
  | none : Agree none none
  | some {trees others : List Tree} {next after : Cursor} (hnext : rel next after)
      (hsimilar : Similar place text trees others) :
      Agree (some (trees, next)) (some (others, after))

structure Accord : Prop where
  place {cursor other : Cursor} (h : rel cursor other) : place cursor.offset other.offset
  ends {cursor other : Cursor} (h : rel cursor other) : cursor.rest = [] ↔ other.rest = []
  stays {cursor other next after : Cursor} (h : rel cursor other) (hnext : rel next after) :
    next.rest = cursor.rest ↔ after.rest = other.rest
  noToken {type : Terminal} {cursor other : Cursor} (h : rel cursor other)
    (hbody : Yields type.body cursor none) : Yields type.body other none
  token {type : Terminal} {cursor other next : Cursor} {trees : List Tree} (h : rel cursor other)
    (hbody : Yields type.body cursor (some (trees, next))) :
    ∃ others after, Yields type.body other (some (others, after)) ∧ rel next after ∧
      text (Tree.allChars trees) (Tree.allChars others)
  gap {cursor other next : Cursor} {trees : List Tree} (h : rel cursor other)
    (hbody : Yields Rule.trivia.body cursor (some (trees, next))) :
    ∃ others after, Yields Rule.trivia.body other (some (others, after)) ∧ rel next after

end Agreement

theorem Yields.offset_eq_iff {expr : Expr} {cursor next : Cursor} {trees : List Tree}
    (h : Yields expr cursor (some (trees, next))) :
    next.offset = cursor.offset ↔ next.rest = cursor.rest := by
  have hmoves := h.moves
  have hoffset := hmoves.offset_eq
  have hlength := hmoves.length_eq
  constructor
  · intro hsame
    have htaken : Tree.allChars trees = [] := List.length_eq_zero_iff.1 (by omega)
    rw [hmoves.rest_eq, htaken, List.nil_append]
  · intro hsame
    rw [hsame] at hlength
    omega

theorem Accord.of_edit {rel : Cursor → Cursor → Prop} (edit : List Char → List Char)
    (hnil : edit [] = []) (hsame : ∀ {chars more}, edit chars = edit more ↔ chars = more)
    (hafter : ∀ (type : Terminal) (chars : List Char),
      type.after? (edit chars) = (type.after? chars).map edit)
    (htrivia : ∀ chars, afterTrivia (edit chars) = edit (afterTrivia chars))
    (hrest : ∀ {cursor other}, rel cursor other → other.rest = edit cursor.rest)
    (hplace : ∀ {cursor other}, rel cursor other → place cursor.offset other.offset)
    (hmoves : ∀ {cursor other next after taken found}, rel cursor other →
      Moves cursor taken next → Moves other found after → after.rest = edit next.rest →
        rel next after ∧ text taken found) : Accord rel place text where
  place h := hplace h
  ends h := by
    rw [hrest h]
    nth_rewrite 2 [← hnil]
    rw [hsame]
  stays h hnext := by rw [hrest h, hrest hnext, hsame]
  noToken h hbody := by
    rw [Terminal.yields_none_iff] at hbody ⊢
    rw [hrest h, hafter, hbody]
    rfl
  token := by
    intro type cursor other next trees h hbody
    obtain ⟨result, hyields, hends⟩ := type.yields_after other
    rw [hrest h, hafter, Terminal.after?_of_yields hbody, Option.map_some,
      Option.map_eq_some_iff] at hends
    obtain ⟨⟨others, after⟩, rfl, hsame⟩ := hends
    obtain ⟨hnext, htext⟩ := hmoves h hbody.moves hyields.moves hsame
    exact ⟨others, after, hyields, hnext, htext⟩
  gap := by
    intro cursor other next trees h hbody
    obtain ⟨others, after, hyields, hends⟩ := exists_yields_trivia other
    rw [hrest h, htrivia, ← afterTrivia_of_yields hbody] at hends
    exact ⟨others, after, hyields, (hmoves h hbody.moves hyields.moves hends).1⟩

theorem Accord.yields {rel : Cursor → Cursor → Prop} (haccord : Accord rel place text)
    {expr : Expr} {cursor other : Cursor} {result : Option (List Tree × Cursor)}
    (h : Yields expr cursor result) (hvisible : expr.visible = true) (hrel : rel cursor other) :
    ∃ result', Yields expr other result' ∧ Agree rel place text result result' := by
  induction h generalizing other with
  | literal | noLiteral | pattern | noPattern => simp [Expr.visible] at hvisible
  | @rule rule cursor next trees hbody ih =>
      have hembedded : rule.embedded = false := by simpa [Expr.visible] using hvisible
      rcases Rule.visible_cases hembedded with ⟨type, rfl⟩ | rfl | hgrouping
      · rw [Rule.body_terminal] at hbody
        obtain ⟨others, after, hyields, hnext, htext⟩ := haccord.token hrel hbody
        rw [← Rule.body_terminal] at hyields
        exact ⟨_, .rule hyields, .some hnext (.terminal (haccord.place hrel) htext)⟩
      · obtain ⟨others, after, hyields, hnext⟩ := haccord.gap hrel hbody
        exact ⟨_, .rule hyields, .some hnext (.trivia _ _ _ _)⟩
      · obtain ⟨_, hyields, hagree⟩ := ih (Rule.visible_body hgrouping) hrel
        cases hagree with
        | some hnext hsimilar =>
            exact ⟨_, .rule hyields, .some hnext (.group _ _ hgrouping hsimilar)⟩
  | @noRule rule cursor hbody ih =>
      have hembedded : rule.embedded = false := by simpa [Expr.visible] using hvisible
      rcases Rule.visible_cases hembedded with ⟨type, rfl⟩ | rfl | hgrouping
      · rw [Rule.body_terminal] at hbody
        have hyields := haccord.noToken hrel hbody
        rw [← Rule.body_terminal] at hyields
        exact ⟨_, .noRule hyields, .none⟩
      · have hscan : Yields Rule.trivia.body cursor (some (_, _)) := .pattern rfl
        cases hbody.unique hscan
      · obtain ⟨_, hyields, hagree⟩ := ih (Rule.visible_body hgrouping) hrel
        cases hagree
        exact ⟨_, .noRule hyields, .none⟩
  | seq _ _ ihFirst ihSecond =>
      simp only [Expr.visible, Bool.and_eq_true] at hvisible
      obtain ⟨_, hfirst, hagree⟩ := ihFirst hvisible.1 hrel
      cases hagree with
      | some hmiddle hsimilar =>
          obtain ⟨_, hsecond, hagree⟩ := ihSecond hvisible.2 hmiddle
          cases hagree with
          | some hnext hmore => exact ⟨_, .seq hfirst hsecond, .some hnext (.append hsimilar hmore)⟩
  | noFirst _ ih =>
      simp only [Expr.visible, Bool.and_eq_true] at hvisible
      obtain ⟨_, hfirst, hagree⟩ := ih hvisible.1 hrel
      cases hagree
      exact ⟨_, .noFirst hfirst, .none⟩
  | noSecond _ _ ihFirst ihSecond =>
      simp only [Expr.visible, Bool.and_eq_true] at hvisible
      obtain ⟨_, hfirst, hagree⟩ := ihFirst hvisible.1 hrel
      cases hagree with
      | some hmiddle _ =>
          obtain ⟨_, hsecond, hagree⟩ := ihSecond hvisible.2 hmiddle
          cases hagree
          exact ⟨_, .noSecond hfirst hsecond, .none⟩
  | first _ ih =>
      simp only [Expr.visible, Bool.and_eq_true] at hvisible
      obtain ⟨_, hfirst, hagree⟩ := ih hvisible.1 hrel
      cases hagree with
      | some hnext hsimilar => exact ⟨_, .first hfirst, .some hnext hsimilar⟩
  | second _ _ ihFirst ihSecond =>
      simp only [Expr.visible, Bool.and_eq_true] at hvisible
      obtain ⟨_, hfirst, hagree⟩ := ihFirst hvisible.1 hrel
      cases hagree
      obtain ⟨_, hsecond, hagree⟩ := ihSecond hvisible.2 hrel
      exact ⟨_, .second hfirst hsecond, hagree⟩
  | optionalAtEnd hend =>
      exact ⟨_, .optionalAtEnd ((haccord.ends hrel).1 hend), .some hrel .nil⟩
  | optionalSome hend _ ih =>
      obtain ⟨_, hbody, hagree⟩ := ih hvisible hrel
      cases hagree with
      | some hnext hsimilar =>
          exact ⟨_, .optionalSome (mt (haccord.ends hrel).2 hend) hbody, .some hnext hsimilar⟩
  | optionalNone hend _ ih =>
      obtain ⟨_, hbody, hagree⟩ := ih hvisible hrel
      cases hagree
      exact ⟨_, .optionalNone (mt (haccord.ends hrel).2 hend) hbody, .some hrel .nil⟩
  | manyAtEnd hend => exact ⟨_, .manyAtEnd ((haccord.ends hrel).1 hend), .some hrel .nil⟩
  | manyNone hend _ ih =>
      obtain ⟨_, hbody, hagree⟩ := ih hvisible hrel
      cases hagree
      exact ⟨_, .manyNone (mt (haccord.ends hrel).2 hend) hbody, .some hrel .nil⟩
  | manyLast hend hone hstuck ih =>
      obtain ⟨_, hbody, hagree⟩ := ih hvisible hrel
      cases hagree with
      | some hnext hsimilar =>
          have hsame := (haccord.stays hrel hnext).1 (hone.offset_eq_iff.1 hstuck)
          exact ⟨_, .manyLast (mt (haccord.ends hrel).2 hend) hbody
            (hbody.offset_eq_iff.2 hsame), .some hnext hsimilar⟩
  | manyMore hend hone hstuck _ ihBody ihMore =>
      obtain ⟨_, hbody, hagree⟩ := ihBody hvisible hrel
      cases hagree with
      | some hmiddle hsimilar =>
          obtain ⟨_, hmore, hagree⟩ := ihMore hvisible hmiddle
          cases hagree with
          | some hnext hrest =>
              refine ⟨_, .manyMore (mt (haccord.ends hrel).2 hend) hbody (fun hsame => ?_) hmore,
                .some hnext (.append hsimilar hrest)⟩
              exact hstuck (hone.offset_eq_iff.2
                ((haccord.stays hrel hmiddle).2 (hbody.offset_eq_iff.1 hsame)))
  | many1AtEnd hend => exact ⟨_, .many1AtEnd ((haccord.ends hrel).1 hend), .none⟩
  | many1None hend _ ih =>
      obtain ⟨_, hbody, hagree⟩ := ih hvisible hrel
      cases hagree
      exact ⟨_, .many1None (mt (haccord.ends hrel).2 hend) hbody, .none⟩
  | many1Some hend _ _ ihBody ihAll =>
      obtain ⟨_, hbody, hagree⟩ := ihBody hvisible hrel
      cases hagree with
      | some _ _ =>
          obtain ⟨_, hall, hagree⟩ := ihAll hvisible hrel
          cases hagree with
          | some hnext hsimilar =>
              exact ⟨_, .many1Some (mt (haccord.ends hrel).2 hend) hbody hall,
                .some hnext hsimilar⟩

end Grammar

end GrammarLint
