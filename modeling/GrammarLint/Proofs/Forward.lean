import GrammarLint.Proofs.Composition
import GrammarLint.Proofs.Lexemes
import GrammarLint.Proofs.Positions

/-!
# Reading forward

`Reads` says that an expression, read at a spot of a text, leads to another spot
and leaves tokens and items behind.  The tokens are known from the spot: their
place from the text before it, their number from the tokens before it.
-/

namespace GrammarLint

open Grammar Text

structure Spot where
  before : List Char
  rest : List Char
  index : Nat

namespace Spot

def cursor (spot : Spot) : Cursor :=
  ⟨spot.before.length, spot.rest⟩

def chars (spot : Spot) : List Char :=
  spot.before ++ spot.rest

end Spot

def tokenAfter (before : List Char) (index : Nat) (type : Terminal) (text : List Char) : Token :=
  ⟨type, String.ofList text, (before.count '\n' + 1 : Nat), Position.sinceBreak before, index⟩

structure Reads (expr : Expr) (start stop : Spot) (tokens : List Token) (items : List Item) :
    Prop where
  chars_eq : start.chars = stop.chars
  found : ∃ trees parts, Yields expr start.cursor (some (trees, stop.cursor)) ∧
    Outline.ofTrees (LineIndex.ofChars start.chars) start.index trees = (parts, stop.index) ∧
    Outline.itemsOf parts = some items ∧ Outline.allTokens parts = tokens

namespace Reads

theorem cast {expr : Expr} {start stop start' stop' : Spot} {tokens : List Token}
    {items : List Item} (h : Reads expr start stop tokens items) (hstart : start = start')
    (hstop : stop = stop') : Reads expr start' stop' tokens items :=
  hstart ▸ hstop ▸ h

section Steps

variable {before text rest : List Char} {index : Nat} {start middle stop : Spot}
  {left right body : Expr} {tokens more : List Token} {items others : List Item}

theorem lexeme {type : Terminal} (h : Lexes type text rest) :
    Reads (.rule (.terminal type)) ⟨before, text ++ rest, index⟩ ⟨before ++ text, rest, index + 1⟩
      [tokenAfter before index type text] [.token (tokenAfter before index type text)] := by
  have hyields : Yields (.rule (.terminal type)) ⟨before.length, text ++ rest⟩
      (some ([.node (.terminal type) before.length [.text text]],
        ⟨(before ++ text).length, rest⟩)) := by
    rw [List.length_append]
    exact h.yields _
  refine ⟨by simp [Spot.chars], _, [.token (tokenAfter before index type text)], hyields, ?_,
    rfl, rfl⟩
  rw [Outline.ofTrees_terminal]
  simp [Outline.tokenOf, Spot.chars, LineIndex.locate_eq, tokenAfter]

theorem gap {text : List Char} (htext : text.all isSpace = true) (hsolid : Solid rest) :
    Reads gap ⟨before, text ++ rest, index⟩ ⟨before ++ text, rest, index⟩ [] [] := by
  have hyields : Yields Grammar.gap ⟨before.length, text ++ rest⟩
      (some ([.node .trivia before.length [.text text]], ⟨(before ++ text).length, rest⟩)) := by
    rw [List.length_append]
    exact yields_gap htext hsolid _
  refine ⟨by simp [Spot.chars], _, [], hyields, ?_, rfl, rfl⟩
  rw [Outline.ofTrees_trivia]

theorem seq (hfirst : Reads left start middle tokens items)
    (hsecond : Reads right middle stop more others) :
    Reads (.seq left right) start stop (tokens ++ more) (items ++ others) := by
  obtain ⟨hchars, trees, parts, hyields, hparts, hitems, htokens⟩ := hfirst
  obtain ⟨hchars', trees', parts', hyields', hparts', hitems', htokens'⟩ := hsecond
  refine ⟨hchars.trans hchars', trees ++ trees', parts ++ parts', .seq hyields hyields', ?_, ?_, ?_⟩
  · rw [Outline.ofTrees_append, hparts, hchars, hparts']
  · rw [Outline.itemsOf_append, hitems, hitems']
    rfl
  · rw [Outline.allTokens_append, htokens, htokens']

theorem rule {rule : Rule} (h : Reads rule.body start stop tokens items)
    (hgrouping : rule.grouping = true) (hassemble : assemble rule items = some others) :
    Reads (.rule rule) start stop tokens others := by
  obtain ⟨hchars, trees, parts, hyields, hparts, hitems, htokens⟩ := h
  refine ⟨hchars, _, [.group rule parts], .rule hyields, ?_, ?_, ?_⟩
  · rw [Outline.ofTrees_group _ hgrouping, hparts]
  · simp [Outline.itemsOf, Outline.items, hitems, hassemble]
  · rw [Outline.allTokens_group, htokens]

theorem first (h : Reads left start stop tokens items) :
    Reads (.choice left right) start stop tokens items := by
  obtain ⟨hchars, trees, parts, hyields, hfound⟩ := h
  exact ⟨hchars, trees, parts, .first hyields, hfound⟩

theorem second (hleft : Grammar.Refuses left start.rest)
    (h : Reads right start stop tokens items) :
    Reads (.choice left right) start stop tokens items := by
  obtain ⟨hchars, trees, parts, hyields, hfound⟩ := h
  exact ⟨hchars, trees, parts, .second (hleft _) hyields, hfound⟩

theorem present (h : Reads body start stop tokens items) (hrest : start.rest ≠ []) :
    Reads (.optional body) start stop tokens items := by
  obtain ⟨hchars, trees, parts, hyields, hfound⟩ := h
  exact ⟨hchars, trees, parts, .optionalSome hrest hyields, hfound⟩

theorem skip (h : start.rest = [] ∨ Grammar.Refuses body start.rest) :
    Reads (.optional body) start start [] [] := by
  refine ⟨rfl, [], [], ?_, rfl, rfl, rfl⟩
  by_cases hend : start.rest = []
  · exact .optionalAtEnd hend
  · exact .optionalNone hend ((h.resolve_left hend) _)

theorem skip_then (h : Grammar.Refuses body start.rest)
    (hmore : Reads right start stop tokens items) :
    Reads (.seq (.optional body) right) start stop tokens items :=
  (skip (.inr h)).seq hmore

theorem lexeme_gap {type : Terminal} {blank : List Char} (hlexes : Lexes type text (blank ++ rest))
    (hblank : blank.all isSpace = true) (hsolid : Solid rest)
    (hmore : Reads body ⟨before ++ text ++ blank, rest, index + 1⟩ stop tokens items) :
    Reads (.seq (.rule (.terminal type)) (.seq Grammar.gap body))
      ⟨before, text ++ (blank ++ rest), index⟩ stop (tokenAfter before index type text :: tokens)
      (.token (tokenAfter before index type text) :: items) :=
  (lexeme hlexes).seq ((gap hblank hsolid).seq hmore)

theorem lexeme_last {type : Terminal} {blank : List Char} (hlexes : Lexes type text (blank ++ rest))
    (hblank : blank.all isSpace = true) (hsolid : Solid rest) :
    Reads (.seq (.rule (.terminal type)) Grammar.gap) ⟨before, text ++ (blank ++ rest), index⟩
      ⟨before ++ text ++ blank, rest, index + 1⟩ [tokenAfter before index type text]
      [.token (tokenAfter before index type text)] :=
  (lexeme hlexes).seq (gap hblank hsolid)

end Steps

end Reads

/-- Reading an expression again and again leads from one spot to the other. -/
inductive ReadsAll (expr : Expr) : Spot → Spot → List Token → List Item → Prop where
  | nil (spot : Spot) : ReadsAll expr spot spot [] []
  | cons {start middle stop : Spot} {tokens more : List Token} {items others : List Item}
      (hfirst : Reads expr start middle tokens items)
      (hmoves : start.before.length < middle.before.length)
      (hmore : ReadsAll expr middle stop more others) :
      ReadsAll expr start stop (tokens ++ more) (items ++ others)

theorem ReadsAll.cast {expr : Expr} {start stop start' stop' : Spot} {tokens : List Token}
    {items : List Item} (h : ReadsAll expr start stop tokens items) (hstart : start = start')
    (hstop : stop = stop') : ReadsAll expr start' stop' tokens items :=
  hstart ▸ hstop ▸ h

theorem ReadsAll.append {expr : Expr} {start middle stop : Spot} {tokens more : List Token}
    {items others : List Item} (hfirst : ReadsAll expr start middle tokens items)
    (hsecond : ReadsAll expr middle stop more others) :
    ReadsAll expr start stop (tokens ++ more) (items ++ others) := by
  induction hfirst with
  | nil => exact hsecond
  | cons hone hmoves _ ih =>
      rw [List.append_assoc, List.append_assoc]
      exact .cons hone hmoves (ih hsecond)

theorem ReadsAll.many {expr : Expr} {start stop : Spot} {tokens : List Token}
    {items : List Item} (h : ReadsAll expr start stop tokens items)
    (hstop : stop.rest = [] ∨ Grammar.Refuses expr stop.rest) :
    Reads (.many expr) start stop tokens items := by
  induction h with
  | nil spot =>
      refine ⟨rfl, [], [], ?_, rfl, rfl, rfl⟩
      by_cases hend : spot.rest = []
      · exact .manyAtEnd hend
      · exact .manyNone hend ((hstop.resolve_left hend) _)
  | @cons start middle stop _ _ _ _ hfirst hmoves _ ih =>
      obtain ⟨hchars, trees, parts, hyields, hparts, hitems, htokens⟩ := hfirst
      obtain ⟨hchars', trees', parts', hyields', hparts', hitems', htokens'⟩ := ih hstop
      have hend : start.cursor.rest ≠ [] := by
        intro hnone
        have hlength := hyields.moves.length_eq
        have hoffset := hyields.moves.offset_eq
        rw [hnone, List.length_nil] at hlength
        simp only [Spot.cursor] at hoffset
        omega
      refine ⟨hchars.trans hchars', trees ++ trees', parts ++ parts',
        .manyMore hend hyields (by simp only [Spot.cursor]; omega) hyields', ?_, ?_, ?_⟩
      · rw [Outline.ofTrees_append, hparts, hchars, hparts']
      · rw [Outline.itemsOf_append, hitems, hitems']
        rfl
      · rw [Outline.allTokens_append, htokens, htokens']

theorem Reads.parse {text : String} {before : List Char} {count : Nat} {tokens : List Token}
    {root : Node} (h : Reads (.rule .grammarFile) ⟨[], text.toList, 0⟩ ⟨before, [], count⟩ tokens
      [.node root]) (file : Option String) :
    Source.parse text file = .ok ⟨root, tokens.toArray, file⟩ := by
  obtain ⟨-, trees, parts, hyields, hparts, hitems, htokens⟩ := h
  obtain ⟨children, rfl⟩ : ∃ children, trees = [.node .grammarFile 0 children] := by
    cases hyields
    exact ⟨_, rfl⟩
  have houtline : outlineOf text.toList (.node .grammarFile 0 children) = parts := by
    rw [Outline.ofTrees_singleton] at hparts
    exact congrArg Prod.fst hparts
  refine Source.parse_eq_ok_iff.2 ⟨_, ⟨_, hyields, rfl⟩, ?_⟩
  exact Source.ofTree_eq_some_iff.2 ⟨root, [], by rw [houtline, hitems], by rw [houtline, htokens]⟩

end GrammarLint
