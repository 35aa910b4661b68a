import GrammarLint.Proofs.Outline
import GrammarLint.Proofs.Positions

/-!
# Tokens and the text between them

The tokens of a text and the trivia between them make up the whole text: nothing
else is left out, nothing is repeated, and every token knows its place.
-/

namespace GrammarLint

open Grammar Text

def Token.Matched (token : Token) : Prop :=
  ∃ cursor trees next, Yields token.type.body cursor (some (trees, next)) ∧
    token.text.toList = Tree.allChars trees

theorem Token.Matched.text_ne {token : Token} (h : token.Matched) : token.text ≠ "" := by
  obtain ⟨cursor, trees, next, hyields, htext⟩ := h
  intro hempty
  have hnullable := @Rule.nullable_of_body (.terminal token.type)
    (hyields.nullable (by simpa [hempty] using htext.symm))
  simp [Rule.nullable] at hnullable

/-! ## Covering a stretch of text -/

/-- Tokens, numbered from `index`, and trivia between them make up the characters
`taken`, which stand after `before` and are followed by `rest`. -/
inductive Covers : (before : List Char) → (index : Nat) → List Token →
    (taken rest : List Char) → Prop where
  | none (before : List Char) (index : Nat) (rest : List Char) : Covers before index [] [] rest
  | trivia {before gap taken rest : List Char} {index : Nat} {tokens : List Token}
      (hgap : Trivia gap (taken ++ rest))
      (hmore : Covers (before ++ gap) index tokens taken rest) :
      Covers before index tokens (gap ++ taken) rest
  | token {before taken rest : List Char} {token : Token} {tokens : List Token}
      (hmatched : token.Matched)
      (hline : token.line = before.count '\n' + 1)
      (hcolumn : token.column = Position.sinceBreak before)
      (hmore : Covers (before ++ token.text.toList) (token.index + 1) tokens taken rest) :
      Covers before token.index (token :: tokens) (token.text.toList ++ taken) rest

namespace Covers

theorem append {before taken more rest : List Char} {index : Nat} {tokens later : List Token}
    (hfirst : Covers before index tokens taken (more ++ rest))
    (hsecond : Covers (before ++ taken) (index + tokens.length) later more rest) :
    Covers before index (tokens ++ later) (taken ++ more) rest := by
  generalize hafter : more ++ rest = after at hfirst
  induction hfirst with
  | none before index after => simpa using hsecond
  | trivia hgap _ ih =>
      subst hafter
      rw [List.append_assoc]
      exact .trivia (by simpa using hgap) (ih (by simpa using hsecond) rfl)
  | token hmatched hline hcolumn _ ih =>
      rw [List.append_assoc]
      refine .token hmatched hline hcolumn (ih ?_ hafter)
      simpa [Nat.add_assoc, Nat.add_comm 1] using hsecond

theorem index_eq {before taken rest : List Char} {index : Nat} {tokens : List Token}
    (h : Covers before index tokens taken rest) {place : Nat} {token : Token}
    (htoken : tokens[place]? = some token) : token.index = index + place := by
  induction h generalizing place with
  | none => simp at htoken
  | trivia _ _ ih => exact ih htoken
  | token _ _ _ _ ih =>
      cases place with
      | zero =>
          cases htoken
          rfl
      | succ place =>
          have := ih htoken
          omega

theorem matched {before taken rest : List Char} {index : Nat} {tokens : List Token}
    (h : Covers before index tokens taken rest) {token : Token} (htoken : token ∈ tokens) :
    token.Matched := by
  induction h with
  | none => simp at htoken
  | trivia _ _ ih => exact ih htoken
  | token hmatched _ _ _ ih =>
      rcases List.mem_cons.1 htoken with rfl | htoken
      · exact hmatched
      · exact ih htoken

end Covers

/-! ## Covering by a match -/

theorem covers_terminal {before : List Char} {cursor next : Cursor} {type : Terminal}
    {children : List Tree} (index : Nat) (hoffset : before.length = cursor.offset)
    (hbody : Yields (Rule.terminal type).body cursor (some (children, next))) :
    Covers before index
      [Outline.tokenOf (LineIndex.ofChars (before ++ cursor.rest)) type cursor.offset
        (Tree.allChars children) index]
      (Tree.allChars children) next.rest := by
  have hplace := LineIndex.locate_eq before cursor.rest
  rw [hoffset] at hplace
  generalize htoken : Outline.tokenOf (LineIndex.ofChars (before ++ cursor.rest)) type
    cursor.offset (Tree.allChars children) index = token
  have htext : token.text.toList = Tree.allChars children := by
    simp [← htoken, Outline.tokenOf]
  have hindex : token.index = index := by
    rw [← htoken]
    rfl
  have hline : token.line = before.count '\n' + 1 := by
    simp [← htoken, Outline.tokenOf, hplace]
  have hcolumn : token.column = Position.sinceBreak before := by
    simp [← htoken, Outline.tokenOf, hplace]
  have hmatched : token.Matched := by
    refine ⟨cursor, children, next, ?_, htext⟩
    rw [← htoken]
    exact hbody
  rw [← htext, ← hindex]
  have hcovers : Covers before token.index [token] (token.text.toList ++ []) next.rest :=
    .token hmatched hline hcolumn (.none _ _ _)
  simpa using hcovers

theorem covers_trivia {before : List Char} {cursor next : Cursor} {children : List Tree}
    (index : Nat) (hbody : Yields Rule.trivia.body cursor (some (children, next))) :
    Covers before index [] (Tree.allChars children) next.rest := by
  cases hbody with
  | pattern hscan =>
      rename_i gap rest
      have htrivia := trivia_scanTrivia cursor.rest
      rw [Option.some.inj hscan] at htrivia
      have hcovers : Covers before index [] (gap ++ []) rest :=
        .trivia (by simpa using htrivia) (.none _ _ _)
      simpa [Cursor.past] using hcovers

/-- The tokens of trees, numbered from `index`, cover the characters of the trees. -/
structure Outlined (chars before : List Char) (index : Nat) (trees : List Tree)
    (rest : List Char) : Prop where
  covers : Covers before index
    (Outline.allTokens (Outline.ofTrees (LineIndex.ofChars chars) index trees).1)
    (Tree.allChars trees) rest
  next_eq : (Outline.ofTrees (LineIndex.ofChars chars) index trees).2 =
    index + (Outline.allTokens (Outline.ofTrees (LineIndex.ofChars chars) index trees).1).length

namespace Outlined

theorem nil (chars before : List Char) (index : Nat) (rest : List Char) :
    Outlined chars before index [] rest :=
  ⟨.none before index rest, rfl⟩

theorem append {chars before rest : List Char} {index : Nat} {trees more : List Tree}
    (hfirst : Outlined chars before index trees (Tree.allChars more ++ rest))
    (hsecond : Outlined chars (before ++ Tree.allChars trees)
      (Outline.ofTrees (LineIndex.ofChars chars) index trees).2 more rest) :
    Outlined chars before index (trees ++ more) rest := by
  constructor
  · have hcovers := hsecond.covers
    rw [hfirst.next_eq] at hcovers
    simpa [Outline.ofTrees_append, hfirst.next_eq] using hfirst.covers.append hcovers
  · have hnext := hsecond.next_eq
    rw [hfirst.next_eq] at hnext
    simp only [Outline.ofTrees_append, Outline.allTokens_append, List.length_append,
      hfirst.next_eq]
    omega

end Outlined

theorem Grammar.Yields.outlined {chars : List Char} {expr : Expr} {cursor next : Cursor}
    {trees : List Tree} (h : Yields expr cursor (some (trees, next)))
    (hvisible : expr.visible = true) {before : List Char} (hchars : chars = before ++ cursor.rest)
    (hoffset : before.length = cursor.offset) (index : Nat) :
    Outlined chars before index trees next.rest := by
  refine Yields.visible_induction
    (motive := fun cursor trees next => ∀ before, chars = before ++ cursor.rest →
      before.length = cursor.offset → ∀ index, Outlined chars before index trees next.rest)
    (fun rule _ => Rule.subset_all _) ?terminal ?trivia ?group ?nil ?append h hvisible
    (Rule.subset_all _) before hchars hoffset index
  case terminal =>
    intro type cursor next children _ hbody before hchars hoffset index
    subst hchars
    exact ⟨by simpa using covers_terminal index hoffset hbody, by simp⟩
  case trivia =>
    intro cursor next children hbody before _ _ index
    exact ⟨by simpa using covers_trivia index hbody, by simp⟩
  case group =>
    intro rule cursor next children hgrouping _ ih before hchars hoffset index
    have hinner := ih before hchars hoffset index
    constructor
    · simpa [Outline.ofTrees_group _ hgrouping] using hinner.covers
    · simpa [Outline.ofTrees_group _ hgrouping] using hinner.next_eq
  case nil => exact fun _ before _ _ index => .nil chars before index _
  case append =>
    intro cursor middle next trees more hmoves hlast ih ihMore before hchars hoffset index
    refine .append ?_ (ihMore _ (by rw [hchars, hmoves.rest_eq, List.append_assoc])
      (by rw [List.length_append, hoffset, hmoves.offset_eq]) _)
    rw [← hlast.rest_eq]
    exact ih before hchars hoffset index

theorem Source.covers {text : String} {file : Option String} {source : Source}
    (h : Source.parse text file = .ok source) :
    Covers [] 0 source.tokens.toList text.toList [] := by
  obtain ⟨tree, ⟨next, hyields, hend⟩, hsource⟩ := Source.parse_eq_ok_iff.1 h
  obtain ⟨root, more, -, rfl⟩ := Source.ofTree_eq_some_iff.1 hsource
  have houtlined : Outlined text.toList [] 0 [tree] next.rest :=
    hyields.outlined rfl (List.nil_append _).symm rfl 0
  have htext : text.toList = Tree.allChars [tree] := by
    have := hyields.moves.rest_eq
    simpa [hend, Cursor.start] using this
  have hcovers := houtlined.covers
  rw [hend, Outline.ofTrees_singleton, ← htext] at hcovers
  simpa [outlineOf] using hcovers

/-! ## Weaving gaps and tokens -/

/-- Gaps and tokens in turn, and the last gap. -/
def weave : List (List Char × Token) → List Char → List Char
  | [], last => last
  | (gap, token) :: pairs, last => gap ++ token.text.toList ++ weave pairs last

/-- A token stands after `before` and a gap, with its place and number, and
`after` follows it. -/
structure Stands (before gap : List Char) (index : Nat) (token : Token)
    (after : List Char) : Prop where
  gap_trivia : Trivia gap (token.text.toList ++ after)
  text_ne : token.text ≠ ""
  index_eq : token.index = index
  line_eq : token.line = (before ++ gap).count '\n' + 1
  column_eq : token.column = Position.sinceBreak (before ++ gap)

/-- Every token of a weave stands where the weave has it. -/
def Woven (before : List Char) (index : Nat) :
    List (List Char × Token) → (last rest : List Char) → Prop
  | [], last, rest => Trivia last rest
  | (gap, token) :: pairs, last, rest =>
      Stands before gap index token (weave pairs last ++ rest) ∧
        Woven (before ++ gap ++ token.text.toList) (index + 1) pairs last rest

theorem Woven.widen {before gap rest : List Char} {index : Nat}
    {pairs : List (List Char × Token)} {last : List Char}
    (hgap : Trivia gap (weave pairs last ++ rest))
    (h : Woven (before ++ gap) index pairs last rest) :
    ∃ wider final, wider.map Prod.snd = pairs.map Prod.snd ∧
      weave wider final = gap ++ weave pairs last ∧ Woven before index wider final rest := by
  cases pairs with
  | nil => exact ⟨[], gap ++ last, rfl, rfl, hgap.append h⟩
  | cons pair pairs =>
      obtain ⟨first, token⟩ := pair
      obtain ⟨hstands, hmore⟩ := h
      refine ⟨(gap ++ first, token) :: pairs, last, rfl, by simp [weave], ?_, ?_⟩
      · refine ⟨?_, hstands.text_ne, hstands.index_eq, ?_, ?_⟩
        · refine Trivia.append ?_ hstands.gap_trivia
          simpa [weave] using hgap
        · simpa using hstands.line_eq
        · simpa using hstands.column_eq
      · simpa using hmore

theorem Covers.woven {before taken rest : List Char} {index : Nat} {tokens : List Token}
    (h : Covers before index tokens taken rest) :
    ∃ pairs last, pairs.map Prod.snd = tokens ∧ weave pairs last = taken ∧
      Woven before index pairs last rest := by
  induction h with
  | none before index rest => exact ⟨[], [], rfl, rfl, .none rest⟩
  | trivia hgap _ ih =>
      obtain ⟨pairs, last, rfl, rfl, hwoven⟩ := ih
      exact Woven.widen hgap hwoven
  | @token before _ _ token _ hmatched hline hcolumn _ ih =>
      obtain ⟨pairs, last, rfl, rfl, hwoven⟩ := ih
      refine ⟨([], token) :: pairs, last, rfl, rfl, ?_, by simpa using hwoven⟩
      exact ⟨.none _, hmatched.text_ne, rfl, by simpa using hline, by simpa using hcolumn⟩

theorem Woven.stands {before : List Char} {index : Nat} {pairs earlier later :
    List (List Char × Token)} {gap last rest : List Char} {token : Token}
    (h : Woven before index pairs last rest) (hsplit : pairs = earlier ++ (gap, token) :: later) :
    Stands (before ++ weave earlier []) gap (index + earlier.length) token
      (weave later last ++ rest) := by
  subst hsplit
  induction earlier generalizing before index with
  | nil => simpa [weave] using h.1
  | cons pair earlier ih =>
      obtain ⟨first, previous⟩ := pair
      have hlater := ih h.2
      simpa [weave, Nat.add_assoc, Nat.add_comm 1] using hlater

theorem Woven.last {before : List Char} {index : Nat} {pairs : List (List Char × Token)}
    {last rest : List Char} (h : Woven before index pairs last rest) : Trivia last rest := by
  induction pairs generalizing before index with
  | nil => exact h
  | cons pair pairs ih => exact ih h.2

theorem weave_append_nil (pairs : List (List Char × Token)) (last : List Char) :
    weave pairs [] ++ last = weave pairs last := by
  induction pairs with
  | nil => rfl
  | cons pair pairs ih => simp [weave, ← ih]

/-- Reading a text loses nothing: the text is its tokens, one after the other,
with gaps of white space and comments before, between and after them.  Tokens
are not empty and are numbered in order; the line of a token is one more than
the line breaks before it, its column the characters since the last of them. -/
theorem Source.tokens_weave_text {text : String} {file : Option String} {source : Source}
    (h : Source.parse text file = .ok source) :
    ∃ pairs last, pairs.map Prod.snd = source.tokens.toList ∧
      text.toList = weave pairs last ∧ Trivia last [] ∧
      ∀ earlier gap token later, pairs = earlier ++ (gap, token) :: later →
        Trivia gap (token.text.toList ++ weave later last) ∧
        token.text ≠ "" ∧
        token.index = earlier.length ∧
        token.line = (weave earlier gap).count '\n' + 1 ∧
        token.column = Position.sinceBreak (weave earlier gap) := by
  obtain ⟨pairs, last, htokens, htext, hwoven⟩ := (Source.covers h).woven
  refine ⟨pairs, last, htokens, htext.symm, hwoven.last, ?_⟩
  intro earlier gap token later hsplit
  have hstands := hwoven.stands hsplit
  refine ⟨?_, hstands.text_ne, ?_, ?_, ?_⟩
  · simpa using hstands.gap_trivia
  · simpa using hstands.index_eq
  · simpa [weave_append_nil] using hstands.line_eq
  · simpa [weave_append_nil] using hstands.column_eq

/-- A grammar with comments between its tokens and inside one of them. -/
def Covers.sampleText : String :=
  "// head\ngrammar g; /* gap */ a : \x7b // x\n\x7d | 'b' ; "

theorem Source.tokens_weave_text_comments :
    ∃ source, Source.parse Covers.sampleText none = .ok source ∧
      ∃ pairs last, pairs.map Prod.snd = source.tokens.toList ∧
        Covers.sampleText.toList = weave pairs last ∧ Trivia last [] ∧
        ∀ earlier gap token later, pairs = earlier ++ (gap, token) :: later →
          Trivia gap (token.text.toList ++ weave later last) ∧
          token.text ≠ "" ∧
          token.index = earlier.length ∧
          token.line = (weave earlier gap).count '\n' + 1 ∧
          token.column = Position.sinceBreak (weave earlier gap) := by
  have hsome : (Source.parse Covers.sampleText none).toOption.isSome = true := by
    decide +kernel
  obtain ⟨source, hsource⟩ := Source.exists_of_isSome hsome
  exact ⟨source, hsource, Source.tokens_weave_text hsource⟩

end GrammarLint
