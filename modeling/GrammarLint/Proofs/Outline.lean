import GrammarLint.Proofs.Evaluation
import GrammarLint.Source.Basic

/-!
# Outlines of matches

Which tokens the outline of a match has.  Outside embedded blocks every
character that an expression takes belongs to a token or to trivia: an
expression that is `visible` refers to rules only, and so does the body of
every rule it refers to, down to the tokens.
-/

namespace GrammarLint

open Grammar Text

namespace Grammar

def Rule.embedded : Rule → Bool
  | .actionChunk => true
  | .actionNested => true
  | .actionString => true
  | .actionComment => true
  | .actionText => true
  | .actionQuote => true
  | .argChunk => true
  | .argNested => true
  | .argText => true
  | _ => false

/-- True of an expression that takes characters only through rules, and none of
these is a rule for the inside of embedded blocks. -/
def Expr.visible : Expr → Bool
  | .literal _ => false
  | .pattern _ => false
  | .rule name => !name.embedded
  | .seq first second => first.visible && second.visible
  | .choice first second => first.visible && second.visible
  | .optional body => body.visible
  | .many body => body.visible
  | .many1 body => body.visible

def Rule.grouping : Rule → Bool
  | .terminal _ => false
  | .trivia => false
  | rule => !rule.embedded

theorem Rule.visible_body {rule : Rule} (h : rule.grouping = true) :
    rule.body.visible = true := by
  cases rule with
  | terminal type => simp [grouping] at h
  | trivia => simp [grouping] at h
  | _ => revert h; decide

theorem Rule.visible_cases {rule : Rule} (h : rule.embedded = false) :
    (∃ type, rule = .terminal type) ∨ rule = .trivia ∨ rule.grouping = true := by
  cases rule with
  | terminal type => exact .inl ⟨type, rfl⟩
  | trivia => exact .inr (.inl rfl)
  | _ => exact .inr (.inr (by simpa [grouping] using h))

/-- What holds of tokens and of trivia, and holds of groups and of matches in a row if it
holds of their parts, holds of every match outside embedded blocks.  The rules are those of
the expression and all that they refer to. -/
theorem Yields.visible_induction {rules : List Rule}
    {motive : Cursor → List Tree → Cursor → Prop}
    (hclosed : ∀ rule ∈ rules, rule.body.rules ⊆ rules)
    (terminal : ∀ {type cursor next children}, Rule.terminal type ∈ rules →
      Yields (Rule.terminal type).body cursor (some (children, next)) →
      motive cursor [.node (.terminal type) cursor.offset children] next)
    (trivia : ∀ {cursor next children}, Yields Rule.trivia.body cursor (some (children, next)) →
      motive cursor [.node .trivia cursor.offset children] next)
    (group : ∀ {rule cursor next children}, rule.grouping = true →
      Yields rule.body cursor (some (children, next)) → motive cursor children next →
      motive cursor [.node rule cursor.offset children] next)
    (nil : ∀ cursor, motive cursor [] cursor)
    (append : ∀ {cursor middle next trees more}, Moves cursor (Tree.allChars trees) middle →
      Moves middle (Tree.allChars more) next → motive cursor trees middle →
      motive middle more next → motive cursor (trees ++ more) next)
    {expr : Expr} {cursor next : Cursor} {trees : List Tree}
    (h : Yields expr cursor (some (trees, next))) (hvisible : expr.visible = true)
    (hrules : expr.rules ⊆ rules) : motive cursor trees next := by
  generalize hresult : some (trees, next) = result at h
  induction h generalizing trees next with
  | literal | pattern => cases hvisible
  | @rule rule cursor _ children hbody ih =>
      cases hresult
      have hrule : rule ∈ rules := hrules List.mem_cons_self
      have hembedded : rule.embedded = false := by simpa [Expr.visible] using hvisible
      rcases Rule.visible_cases hembedded with ⟨type, rfl⟩ | rfl | hgrouping
      · exact terminal hrule hbody
      · exact trivia hbody
      · exact group hgrouping hbody (ih (Rule.visible_body hgrouping) (hclosed rule hrule) rfl)
  | seq hfirst hsecond ihFirst ihSecond =>
      cases hresult
      simp only [Expr.visible, Bool.and_eq_true] at hvisible
      simp only [Expr.rules, List.append_subset] at hrules
      exact append hfirst.moves hsecond.moves (ihFirst hvisible.1 hrules.1 rfl)
        (ihSecond hvisible.2 hrules.2 rfl)
  | first _ ih =>
      simp only [Expr.visible, Bool.and_eq_true] at hvisible
      simp only [Expr.rules, List.append_subset] at hrules
      exact ih hvisible.1 hrules.1 hresult
  | second _ _ _ ih =>
      simp only [Expr.visible, Bool.and_eq_true] at hvisible
      simp only [Expr.rules, List.append_subset] at hrules
      exact ih hvisible.2 hrules.2 hresult
  | optionalAtEnd | optionalNone | manyAtEnd | manyNone =>
      cases hresult
      exact nil _
  | optionalSome _ _ ih => exact ih hvisible hrules hresult
  | manyLast _ _ _ ih => exact ih hvisible hrules hresult
  | manyMore _ hfirst _ hmore ihFirst ihMore =>
      cases hresult
      exact append hfirst.moves hmore.moves (ihFirst hvisible hrules rfl)
        (ihMore hvisible hrules rfl)
  | many1Some _ _ _ _ ihAll => exact ihAll hvisible hrules hresult
  | noLiteral | noPattern | noRule | noFirst | noSecond | many1AtEnd | many1None => cases hresult

theorem Rule.subset_all (rules : List Rule) : rules ⊆ all :=
  fun rule _ => rule.mem_all

end Grammar

namespace Outline

/-! ## Tokens of outlines -/

def allTokens (parts : List Outline) : List Token :=
  allTokensBefore [] parts

theorem allTokensBefore_append (tail : List Token) (parts more : List Outline) :
    allTokensBefore tail (parts ++ more) = allTokensBefore (allTokensBefore tail more) parts := by
  induction parts with
  | nil => rfl
  | cons part parts ih => simp only [List.cons_append, allTokensBefore, ih]

mutual

theorem tokensBefore_eq (tail : List Token) :
    (part : Outline) → tokensBefore tail part = tokensBefore [] part ++ tail
  | .token value => rfl
  | .group _ parts => by
      simp only [tokensBefore]
      exact allTokensBefore_eq tail parts

theorem allTokensBefore_eq (tail : List Token) :
    (parts : List Outline) → allTokensBefore tail parts = allTokensBefore [] parts ++ tail
  | [] => rfl
  | part :: parts => by
      simp only [allTokensBefore]
      rw [tokensBefore_eq (allTokensBefore tail parts) part,
        tokensBefore_eq (allTokensBefore [] parts) part, allTokensBefore_eq tail parts,
        List.append_assoc]

end

@[simp] theorem allTokens_nil : allTokens [] = [] := rfl

@[simp] theorem allTokens_token (value : Token) : allTokens [.token value] = [value] := rfl

@[simp] theorem allTokens_group (rule : Rule) (parts : List Outline) :
    allTokens [.group rule parts] = allTokens parts := by
  simp [allTokens, allTokensBefore, tokensBefore]

@[simp] theorem allTokens_append (parts more : List Outline) :
    allTokens (parts ++ more) = allTokens parts ++ allTokens more := by
  rw [allTokens, allTokensBefore_append, allTokensBefore_eq]
  rfl

/-! ## Outlines of trees -/

variable (lines : LineIndex)

theorem ofTrees_append (next : Nat) (trees more : List Tree) :
    ofTrees lines next (trees ++ more) =
      ((ofTrees lines next trees).1 ++ (ofTrees lines (ofTrees lines next trees).2 more).1,
        (ofTrees lines (ofTrees lines next trees).2 more).2) := by
  induction trees generalizing next with
  | nil => simp [ofTrees]
  | cons tree trees ih => simp [ofTrees, ih]

theorem ofTrees_singleton (next : Nat) (tree : Tree) :
    ofTrees lines next [tree] = ofTree lines next tree := by
  simp [ofTrees]

@[simp] theorem ofTrees_terminal (next : Nat) (type : Terminal) (offset : Nat)
    (children : List Tree) :
    ofTrees lines next [.node (.terminal type) offset children] =
      ([.token (tokenOf lines type offset (Tree.allChars children) next)], next + 1) := by
  rw [ofTrees_singleton]
  rfl

@[simp] theorem ofTrees_trivia (next offset : Nat) (children : List Tree) :
    ofTrees lines next [.node .trivia offset children] = ([], next) := by
  rw [ofTrees_singleton]
  rfl

theorem ofTrees_group {rule : Rule} (h : rule.grouping = true) (next offset : Nat)
    (children : List Tree) :
    ofTrees lines next [.node rule offset children] =
      ([.group rule (ofTrees lines next children).1], (ofTrees lines next children).2) := by
  rw [ofTrees_singleton]
  cases rule with
  | terminal type => simp [Rule.grouping] at h
  | trivia => simp [Rule.grouping] at h
  | _ => rfl

end Outline

/-! ## Sources -/

def outlineOf (chars : List Char) (tree : Tree) : List Outline :=
  (Outline.ofTree (LineIndex.ofChars chars) 0 tree).1

theorem Source.ofTree_eq_some_iff {file : Option String} {chars : List Char} {tree : Tree}
    {source : Source} :
    Source.ofTree file chars tree = some source ↔
      ∃ root more, Outline.itemsOf (outlineOf chars tree) = some (.node root :: more) ∧
        source = ⟨root, (Outline.allTokens (outlineOf chars tree)).toArray, file⟩ := by
  simp only [Source.ofTree, outlineOf, Outline.allTokens]
  split
  · rename_i root more hitems
    rw [hitems]
    constructor
    · intro h
      exact ⟨root, more, rfl, (Option.some.inj h).symm⟩
    · rintro ⟨other, rest, hsame, rfl⟩
      cases hsame
      rfl
  · rename_i hitems
    constructor
    · intro h
      cases h
    · rintro ⟨root, more, hsome, -⟩
      exact absurd hsome (hitems root more)

theorem Source.exists_of_isSome {text : String} {file : Option String}
    (h : (Source.parse text file).toOption.isSome = true) :
    ∃ source, Source.parse text file = .ok source := by
  cases hsource : Source.parse text file with
  | error fault =>
      rw [hsource] at h
      cases h
  | ok source => exact ⟨source, rfl⟩

theorem Source.parse_eq_ok_iff {text : String} {file : Option String} {source : Source} :
    Source.parse text file = .ok source ↔
      ∃ tree, Accepts .grammarFile text.toList tree ∧
        Source.ofTree file text.toList tree = some source := by
  simp only [Source.parse]
  cases hparse : Grammar.parse .grammarFile text.toList with
  | error fault =>
      constructor
      · intro h
        cases h
      · rintro ⟨tree, haccepts, -⟩
        rw [(Grammar.parse_eq_ok_iff _ _ _).2 haccepts] at hparse
        cases hparse
  | ok tree =>
      have haccepts := (Grammar.parse_eq_ok_iff _ _ _).1 hparse
      constructor
      · intro h
        refine ⟨tree, haccepts, ?_⟩
        simp only at h
        split at h
        · cases h
          assumption
        · cases h
      · rintro ⟨other, hother, hsource⟩
        rw [(Grammar.parse_eq_ok_iff _ _ _).2 hother] at hparse
        cases hparse
        simp only [hsource]

theorem Source.parse_of_items {text : String} {tree : Tree} {root : Node} {more : List Item}
    (h : Accepts .grammarFile text.toList tree)
    (hitems : Outline.itemsOf (outlineOf text.toList tree) = some (.node root :: more))
    (file : Option String) :
    Source.parse text file =
      .ok ⟨root, (Outline.allTokens (outlineOf text.toList tree)).toArray, file⟩ :=
  parse_eq_ok_iff.2 ⟨tree, h, ofTree_eq_some_iff.2 ⟨root, more, hitems, rfl⟩⟩

end GrammarLint
