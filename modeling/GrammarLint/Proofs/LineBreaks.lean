import GrammarLint.Proofs.Parallel
import GrammarLint.Proofs.Returns
import GrammarLint.Proofs.Composition

/-!
# Texts with other line breaks

A text and the text with a carriage return before every line break are read alike:
both are accepted or neither is, and what is read of the one is what is read of the
other with returns in the texts of blocks.
-/

namespace GrammarLint

open Grammar Text

namespace Text

theorem count_withReturns (chars : List Char) :
    (withReturns chars).count '\n' = chars.count '\n' := by
  induction chars with
  | nil => rfl
  | cons c chars ih =>
      by_cases hbreak : c = '\n'
      · simp [hbreak, ih]
      · simp [withReturns_cons hbreak, ih, hbreak]

theorem sinceBreak_withReturns (chars : List Char) :
    Position.sinceBreak (withReturns chars) = Position.sinceBreak chars := by
  induction chars using List.reverseRecOn with
  | nil => rfl
  | append_singleton chars c ih =>
      by_cases hbreak : c = '\n'
      · have hreturn : withReturns (chars ++ ['\n']) = (withReturns chars ++ ['\r']) ++ ['\n'] := by
          simp
        rw [hbreak, hreturn, Position.sinceBreak_append_singleton,
          Position.sinceBreak_append_singleton chars, if_pos rfl, if_pos rfl]
      · rw [withReturns_append, withReturns_cons hbreak, withReturns_nil,
          Position.sinceBreak_append_singleton, Position.sinceBreak_append_singleton, ih]

end Text

namespace Grammar

section Cursors

variable {chars : List Char}

/-- An offset of the text and the offset of the same place in the text with returns. -/
def SamePlace (chars : List Char) (offset other : Nat) : Prop :=
  ∃ before after, chars = before ++ after ∧ offset = before.length ∧
    other = (withReturns before).length

def Across (chars : List Char) (cursor other : Cursor) : Prop :=
  other.rest = withReturns cursor.rest ∧ ∃ before, chars = before ++ cursor.rest ∧
    cursor.offset = before.length ∧ other.offset = (withReturns before).length

theorem Across.start (chars : List Char) :
    Across chars (Cursor.start chars) (Cursor.start (withReturns chars)) :=
  ⟨rfl, [], rfl, rfl, rfl⟩

theorem Across.moves {cursor other next after : Cursor} {taken found : List Char}
    (h : Across chars cursor other) (hmoves : Moves cursor taken next)
    (hother : Moves other found after) (hrest : after.rest = withReturns next.rest) :
    Across chars next after ∧ found = withReturns taken := by
  obtain ⟨hsame, before, hchars, hoffset, hplace⟩ := h
  have hfound : found = withReturns taken := by
    rw [hother.rest_eq, hmoves.rest_eq, hrest, withReturns_append] at hsame
    exact List.append_cancel_right hsame
  refine ⟨⟨hrest, before ++ taken, ?_, ?_, ?_⟩, hfound⟩
  · rw [hchars, hmoves.rest_eq, List.append_assoc]
  · rw [hmoves.offset_eq, hoffset, List.length_append]
  · rw [hother.offset_eq, hplace, hfound, withReturns_append, List.length_append]

theorem Across.samePlace {cursor other : Cursor} (h : Across chars cursor other) :
    SamePlace chars cursor.offset other.offset := by
  obtain ⟨-, before, hchars, hoffset, hplace⟩ := h
  exact ⟨before, _, hchars, hoffset, hplace⟩

theorem accord_across (chars : List Char) :
    Accord (Across chars) (SamePlace chars) (fun taken found => found = withReturns taken) :=
  Accord.of_edit withReturns withReturns_nil withReturns_injective Terminal.after?_withReturns
    afterTrivia_withReturns (fun h => h.1) Across.samePlace Across.moves

end Cursors

theorem accepts_withReturns (chars : List Char) (start : Rule)
    (hstart : (Expr.rule start).visible = true) :
    (∀ tree, Accepts start chars tree → ∃ other, Accepts start (withReturns chars) other ∧
      Similar (SamePlace chars) (fun taken found => found = withReturns taken) [tree] [other]) ∧
    ((∃ other, Accepts start (withReturns chars) other) → ∃ tree, Accepts start chars tree) := by
  have hyields {result : Option (List Tree × Cursor)}
      (h : Yields (.rule start) (Cursor.start chars) result) :=
    (accord_across chars).yields h hstart (Across.start chars)
  constructor
  · rintro tree ⟨next, htree, hend⟩
    obtain ⟨_, hother, hagree⟩ := hyields htree
    cases hagree with
    | some hnext hsimilar =>
        cases hother with
        | rule hbody =>
            exact ⟨_, ⟨_, .rule hbody, by rw [hnext.1, hend, withReturns_nil]⟩, hsimilar⟩
  · rintro ⟨other, after, hother, hend⟩
    obtain ⟨result, hresult⟩ := Yields.total (.rule start) (Cursor.start chars)
    obtain ⟨_, hfound, hagree⟩ := hyields hresult
    cases hfound.unique hother
    cases hagree with
    | some hnext _ =>
        cases hresult with
        | rule hbody =>
            rw [hnext.1, withReturns_eq_nil] at hend
            exact ⟨_, _, .rule hbody, hend⟩

end Grammar

/-! ## Views -/

def View.returned : View :=
  ⟨fun text => String.ofList (withReturns text.toList), id, id, id⟩

def View.turned : View :=
  ⟨fun text => String.ofList (withoutReturns text.toList), id, id, id⟩

theorem View.turned_undoes : View.turned.Undoes View.returned :=
  ⟨fun text => by simp [turned, returned, withoutReturns_withReturns], fun _ => rfl, fun _ => rfl,
    fun _ => rfl⟩

theorem View.plain_returned : View.returned.Plain :=
  ⟨rfl, rfl, by decide, by decide, by decide⟩

theorem View.returned_text {text : String} (h : '\n' ∉ text.toList) :
    View.returned.text text = text := by
  simp [returned, withReturns_eq_self h]

theorem tokenOf_returned {chars : List Char} {offset other : Nat} (h : SamePlace chars offset other)
    (type : Terminal) (taken : List Char) (index : Nat) :
    (Outline.tokenOf (LineIndex.ofChars chars) type offset taken index).under .returned =
      (Outline.tokenOf (LineIndex.ofChars (withReturns chars)) type other (withReturns taken)
        index).under .same := by
  obtain ⟨before, after, rfl, rfl, rfl⟩ := h
  simp [Outline.tokenOf, Token.under, View.returned, View.same, LineIndex.locate_eq,
    count_withReturns, sinceBreak_withReturns]

/-! ## Tokens -/

theorem referenceKind_returned (text : String) :
    referenceKind (View.returned.text text) = referenceKind text := by
  simp only [referenceKind, View.returned, String.toList_ofList]
  cases text.toList with
  | nil => rfl
  | cons c chars =>
      by_cases hbreak : c = '\n'
      · simp [hbreak]
      · rw [withReturns_cons hbreak]
        rfl

theorem Token.Matched.oneLine {token : Token} (h : token.Matched)
    (htype : token.type ∉ blockTypes) : '\n' ∉ token.text.toList := by
  obtain ⟨cursor, trees, next, hyields, htext⟩ := h
  rw [htext]
  exact Terminal.oneLine htype hyields

theorem Token.Matched.inside_returned {token : Token} (h : token.Matched) :
    String.ofList (View.returned.text token.text).toList.tail.dropLast =
      View.returned.text (String.ofList token.text.toList.tail.dropLast) := by
  by_cases htype : token.type ∈ blockTypes
  · obtain ⟨cursor, trees, next, hyields, htext⟩ := h
    obtain ⟨enclosure, henclosure⟩ := Enclosure.exists_terminal htype
    rw [henclosure] at hyields
    obtain ⟨inner, hinner⟩ := enclosure.block_shape hyields
    rw [hinner] at htext
    have hopening : enclosure.opening ≠ '\n' := by cases enclosure <;> decide
    have hclosing : enclosure.closing ≠ '\n' := by cases enclosure <;> decide
    simp [View.returned, htext, withReturns_cons hopening, withReturns_cons hclosing]
  · have hline := h.oneLine htype
    rw [View.returned_text hline, View.returned_text]
    rw [String.toList_ofList]
    exact fun hbreak => hline (List.mem_of_mem_tail (List.mem_of_mem_dropLast hbreak))

theorem Token.Matched.suits_returned {token : Token} (h : token.Matched) :
    View.returned.Suits token :=
  ⟨referenceKind_returned _, fun htype => by rw [View.returned_text (h.oneLine htype)],
    h.inside_returned⟩

/-! ## Outlines -/

theorem type_of_tokenSpec {lines : LineIndex} {cursor next : Cursor} {trees : List Tree}
    (h : Yields Rule.tokenSpec.body cursor (some (trees, next))) (index : Nat) :
    ∀ token ∈ Outline.allTokens (Outline.ofTrees lines index trees).1, token.type ∉ blockTypes := by
  obtain ⟨items, -, hadmits⟩ := @Yields.admits (Kinded fun _ _ _ => True)
    (fun _ _ _ hnode => hnode.2) (fun _ _ _ hnode => ⟨trivial, hnode.kind_mem⟩) lines _ _ _ _ h
    (Rule.visible_body rfl) index
  obtain ⟨node, hnode, -⟩ := composes_tokenSpec hadmits
  generalize Outline.allTokens (Outline.ofTrees lines index trees).1 = tokens at hnode
  cases hnode with
  | imaginary hname hsemicolon => simp [hname, hsemicolon, blockTypes]
  | tokenSpec hname hsign hliteral hsemicolon =>
      simp [hname, hsign, hliteral, hsemicolon, blockTypes]

theorem Grammar.Yields.allSuited {view : View} {lines : LineIndex} {expr : Expr}
    {cursor next : Cursor} {trees : List Tree} (h : Yields expr cursor (some (trees, next)))
    (hvisible : expr.visible = true) (index : Nat)
    (hsuits : ∀ token ∈ Outline.allTokens (Outline.ofTrees lines index trees).1, view.Suits token) :
    Outline.AllSuited view (Outline.ofTrees lines index trees).1 := by
  refine Yields.visible_induction
    (motive := fun _ trees _ => ∀ index,
      (∀ token ∈ Outline.allTokens (Outline.ofTrees lines index trees).1, view.Suits token) →
      Outline.AllSuited view (Outline.ofTrees lines index trees).1)
    (fun rule _ => Rule.subset_all _) ?terminal ?trivia ?group ?nil ?append h hvisible
    (Rule.subset_all _) index hsuits
  case terminal =>
    intro type cursor next children _ _ index hsuits
    rw [Outline.ofTrees_terminal] at hsuits ⊢
    exact ⟨hsuits _ List.mem_cons_self, trivial⟩
  case trivia =>
    intro cursor next children _ index _
    rw [Outline.ofTrees_trivia]
    trivial
  case group =>
    intro rule cursor next children hgrouping hbody ih index hsuits
    rw [Outline.ofTrees_group _ hgrouping, Outline.allTokens_group] at hsuits
    rw [Outline.ofTrees_group _ hgrouping]
    refine ⟨⟨ih index hsuits, ?_⟩, trivial⟩
    rintro rfl token htoken
    exact (hsuits token htoken).literal (type_of_tokenSpec hbody index token htoken)
  case nil => exact fun _ _ _ => trivial
  case append =>
    intro cursor middle next trees more _ _ ih ihMore index hsuits
    rw [Outline.ofTrees_append, Outline.allTokens_append, List.forall_mem_append] at hsuits
    rw [Outline.ofTrees_append]
    exact Outline.allSuited_append.2 ⟨ih index hsuits.1, ihMore _ hsuits.2⟩

/-! ## Sources -/

def returned (text : String) : String :=
  String.ofList (withReturns text.toList)

def Source.under (view : View) (source : Source) : Source :=
  ⟨source.root.under view, source.tokens.map (Token.under view), source.file⟩

theorem Source.under_undone {back view : View} (h : back.Undoes view) (source : Source) :
    (source.under view).under back = source := by
  have htokens : (source.tokens.map (Token.under view)).map (Token.under back) = source.tokens := by
    rw [Array.map_map]
    exact (Array.map_congr_left fun token _ => Token.under_undone h token).trans (Array.map_id _)
  rw [under, under, Node.under_undone h, htokens]

theorem Source.parse_returned {text : String} {file : Option String} {source : Source}
    (h : Source.parse text file = .ok source) :
    Source.parse (returned text) file = .ok (source.under .returned) := by
  have hmatched : ∀ token ∈ source.tokens.toList, token.Matched :=
    fun token htoken => (Source.covers h).matched htoken
  obtain ⟨tree, haccepts, hsource⟩ := Source.parse_eq_ok_iff.1 h
  obtain ⟨root, more, hitems, rfl⟩ := Source.ofTree_eq_some_iff.1 hsource
  obtain ⟨other, hother, hsimilar⟩ :=
    (accepts_withReturns text.toList .grammarFile rfl).1 tree haccepts
  have houtline : outlineOf (withReturns text.toList) other =
      Outline.allUnder .returned (outlineOf text.toList tree) := by
    have hparts := (@Similar.outline _ _ _ _ hsimilar (LineIndex.ofChars text.toList)
      (LineIndex.ofChars (withReturns text.toList)) .returned .same 0
      (fun type offset other taken found index hplace htext => htext ▸
        tokenOf_returned hplace type taken index) 0).1
    rw [Outline.allUnder_same, Outline.ofTrees_singleton, Outline.ofTrees_singleton] at hparts
    exact hparts.symm
  have hsuited : Outline.AllSuited .returned (outlineOf text.toList tree) := by
    obtain ⟨next, hyields, -⟩ := haccepts
    rw [outlineOf, ← Outline.ofTrees_singleton] at hmatched ⊢
    exact hyields.allSuited rfl 0 fun token htoken =>
      (hmatched token (by simpa using htoken)).suits_returned
  refine Source.parse_eq_ok_iff.2 ⟨other, by rwa [returned, String.toList_ofList],
    Source.ofTree_eq_some_iff.2 ⟨root.under .returned, more.map (Item.under .returned), ?_, ?_⟩⟩
  · rw [returned, String.toList_ofList, houtline,
      Outline.itemsOf_under View.plain_returned _ hsuited, hitems]
    rfl
  · rw [returned, String.toList_ofList, houtline, Outline.allTokens_under]
    simp [Source.under]

theorem Source.accepts_returned {text : String} {file : Option String} :
    (∃ source, Source.parse text file = .ok source) ↔
      ∃ source, Source.parse (returned text) file = .ok source := by
  constructor
  · rintro ⟨source, hsource⟩
    exact ⟨_, Source.parse_returned hsource⟩
  · rintro ⟨source, hsource⟩
    obtain ⟨other, hother, -⟩ := Source.parse_eq_ok_iff.1 hsource
    rw [returned, String.toList_ofList] at hother
    obtain ⟨tree, htree⟩ := (accepts_withReturns text.toList .grammarFile rfl).2 ⟨other, hother⟩
    obtain ⟨found, -, hfound⟩ := htree.source file
    exact ⟨found, hfound⟩

end GrammarLint
