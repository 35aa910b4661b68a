import GrammarLint.Proofs.LineBreaks
import GrammarLint.Proofs.WholeFiles

/-!
# Texts with other gaps

The tokens of a text with other white space between them are read as before: the same
tokens are found, and the tree differs in places only.  Comments may be gone, and gaps
may be put between tokens that had none.
-/

namespace GrammarLint

open Grammar Text

/-! ## Other gaps -/

/-- The same tokens after blank gaps.  Between two tokens a gap may be new, but none is lost. -/
inductive Respaced : List (List Char × Token) → List (List Char × Token) → Prop where
  | nil : Respaced [] []
  | cons {pairs others : List (List Char × Token)} (gap : List Char) {space : List Char}
      (token : Token) (hblank : space.all isSpace = true)
      (hapart : ∀ pair ∈ pairs.head?, ∀ other ∈ others.head?, other.1 = [] → pair.1 = [])
      (hmore : Respaced pairs others) : Respaced ((gap, token) :: pairs) ((space, token) :: others)

section Gaps

variable {before last stop : List Char} {index : Nat} {pairs others : List (List Char × Token)}

theorem Respaced.resumes (h : Respaced pairs others)
    (hapart : ∀ pair ∈ pairs.head?, ∀ other ∈ others.head?, other.1 = [] → pair.1 = [])
    (hwoven : Woven before index pairs last []) (hstop : stop.all isSpace = true) :
    Resumes (weave pairs last) (weave others stop) := by
  have hspaces {space : List Char} (hblank : space.all isSpace = true) :
      ∀ c ∈ space.head?, isSpace c = true :=
    fun c hc => List.all_eq_true.1 hblank c (List.mem_of_mem_head? hc)
  intro c hc
  cases h with
  | nil => exact .inl (hspaces hstop c hc)
  | @cons pairs others gap space token hblank _ _ =>
      have htext : token.text.toList ≠ [] := by simpa using hwoven.1.text_ne
      cases space with
      | nil =>
          have hgap : gap = [] := hapart _ rfl _ rfl rfl
          subst hgap
          rw [weave, List.nil_append, List.head?_append_of_ne_nil _ htext] at hc ⊢
          exact .inr (.inr hc)
      | cons d space => exact .inl (hspaces hblank c (by simpa [weave] using hc))

theorem Respaced.lined (h : Respaced pairs others) (hwoven : Woven before index pairs last [])
    (hstop : stop.all isSpace = true)
    (hcalm : ∀ pair ∈ pairs, pair.2.type ∈ blockTypes →
      ∀ c ∈ ['"', '\'', '/'], c ∉ pair.2.text.toList)
    (hlexed : Lexed Enters [] (pairs.map fun pair => pair.2.lexeme)
      (afterTrivia (weave pairs last))) :
    Lined (fun _ _ => True) [] [] (pairs.map fun pair => pair.2.lexeme)
      (afterTrivia (weave pairs last)) (afterTrivia (weave others stop)) := by
  induction h generalizing before index with
  | nil =>
      have hblank : afterTrivia stop = [] := by
        have hscan := @scanTrivia_gap stop [] hstop nofun
        rw [List.append_nil] at hscan
        exact congrArg Prod.snd hscan
      rw [weave] at hlexed
      rw [weave, weave, hblank]
      generalize afterTrivia last = rest at hlexed ⊢
      cases hlexed
      exact .nil
  | @cons pairs others gap space token hblank hapart hmore ih =>
      obtain ⟨hstands, hlater⟩ := hwoven
      rw [List.forall_mem_cons] at hcalm
      rw [List.map_cons] at hlexed ⊢
      have htrivia := hstands.gap_trivia
      rw [List.append_nil] at htrivia
      have hfirst : afterTrivia (weave ((gap, token) :: pairs) last) =
          token.text.toList ++ weave pairs last := by
        rw [weave, List.append_assoc]
        exact afterTrivia_gap htrivia (hlexed.solid_append _)
      have hsecond : afterTrivia (weave ((space, token) :: others) stop) =
          token.text.toList ++ weave others stop := by
        rw [weave, List.append_assoc]
        exact congrArg Prod.snd (scanTrivia_gap hblank (hlexed.solid_append _))
      rw [hfirst] at hlexed ⊢
      rw [hsecond]
      obtain ⟨hafter, hnext, henters, hrest⟩ := hlexed.uncons
      exact .token hafter
        (fun hblock => Terminal.after?_calm hblock hafter (hcalm.1 hblock) _) hnext
        henters (hmore.resumes hapart hlater hstop) rfl trivial (ih hlater hcalm.2 hrest)

end Gaps

/-! ## Sources -/

def View.unplaced : View :=
  ⟨id, fun _ => 0, fun _ => 0, id⟩

theorem View.plain_unplaced : View.unplaced.Plain :=
  ⟨rfl, rfl, rfl, rfl, rfl⟩

theorem Source.unplaced_of_similar {place : Nat → Nat → Prop} {tree other : Tree}
    (hsimilar : Similar place Eq [tree] [other]) {text second : String} {file : Option String}
    {source : Source} (hsource : Source.ofTree file text.toList tree = some source)
    (haccepts : Accepts .grammarFile second.toList other) :
    ∃ found, Source.parse second file = .ok found ∧
      found.under .unplaced = source.under .unplaced := by
  have houtline : Outline.allUnder .unplaced (outlineOf text.toList tree) =
      Outline.allUnder .unplaced (outlineOf second.toList other) := by
    have hparts := (@Similar.outline _ _ _ _ hsimilar (LineIndex.ofChars text.toList)
      (LineIndex.ofChars second.toList) .unplaced .unplaced 0
      (fun type offset offset' chars chars' index _ htext => by
        rw [htext]
        rfl) 0).1
    rw [Outline.ofTrees_singleton, Outline.ofTrees_singleton] at hparts
    exact hparts
  obtain ⟨root, more, hitems, rfl⟩ := Source.ofTree_eq_some_iff.1 hsource
  obtain ⟨found, hfound, hparse⟩ := haccepts.source file
  obtain ⟨root', more', hitems', rfl⟩ := Source.ofTree_eq_some_iff.1 hfound
  refine ⟨_, hparse, ?_⟩
  have htokens := congrArg Outline.allTokens houtline
  rw [Outline.allTokens_under, Outline.allTokens_under] at htokens
  have hsame := congrArg Outline.itemsOf houtline
  have hsuited := @Outline.allSuited_of_text .unplaced fun _ => rfl
  rw [Outline.itemsOf_under View.plain_unplaced _ (hsuited _),
    Outline.itemsOf_under View.plain_unplaced _ (hsuited _), hitems, hitems'] at hsame
  simp only [Option.map_some, Option.some.injEq, List.map_cons, Item.under, List.cons.injEq,
    Item.node.injEq] at hsame
  simp [Source.under, hsame.1, htokens]

/-- The layout of a text is nothing to what is read of it.  If no block has quotes or slashes
in it, the text may be written with other white space between its tokens: it is read, and what
is read of it differs in lines and columns only. -/
theorem Source.parse_respaced {text : String} {file : Option String} {source : Source}
    (h : Source.parse text file = .ok source)
    (hcalm : ∀ token ∈ source.tokens, token.type ∈ blockTypes →
      ∀ c ∈ ['"', '\'', '/'], c ∉ token.text.toList) :
    ∃ pairs last, pairs.map Prod.snd = source.tokens.toList ∧ text.toList = weave pairs last ∧
      Woven [] 0 pairs last [] ∧
      ∀ others stop, Respaced pairs others → stop.all isSpace = true →
        ∃ other, Source.parse (String.ofList (weave others stop)) file = .ok other ∧
          other.under .unplaced = source.under .unplaced := by
  obtain ⟨pairs, last, htokens, htext, hwoven⟩ := (Source.covers h).woven
  refine ⟨pairs, last, htokens, htext.symm, hwoven, fun others stop hspaced hstop => ?_⟩
  obtain ⟨gaps, head, sections, rules, start, body, first, next, hreads, hend, hsource, hlexemes⟩ :=
    Source.readsFile h
  rw [← htokens, List.map_map] at hlexemes
  change pairs.map (fun pair => pair.2.lexeme) = _ at hlexemes
  have hlined : Lined (fun _ _ => True) [] [] (partLexemes head sections rules)
      (afterTrivia text.toList) (afterTrivia (String.ofList (weave others stop)).toList) := by
    have hlexed := hreads.lexed
    rw [hend, ← hlexemes, ← htext] at hlexed
    rw [← hlexemes, ← htext, String.toList_ofList]
    refine hspaced.lined hwoven hstop (fun pair hpair => hcalm pair.2 ?_) hlexed
    rw [← Array.mem_toList_iff, ← htokens]
    exact List.mem_map_of_mem hpair
  generalize String.ofList (weave others stop) = second at hlined ⊢
  have hmore : ∀ later : Cursor, later.rest = [] →
      later.offset + later.rest.length = second.toList.length →
        Yields (.many (.rule .ruleSpec)) later (some ([], ⟨second.toList.length, []⟩)) := by
    rintro ⟨offset, rest⟩ rfl rfl
    exact .manyAtEnd rfl
  obtain ⟨parts, hother, hsimilar⟩ :=
    hreads.retold hlined refuses_closers_nil (fun _ => rfl) hmore
  rw [List.append_nil] at hother
  exact Source.unplaced_of_similar (.group _ _ rfl hsimilar) hsource ⟨_, hother, rfl⟩

/-- A grammar with comments, blocks, and signs that others are the start of. -/
def Respaced.sampleText : String :=
  "grammar g; // head\na[int i] : x+=b \x7b f(); \x7d? -> ^('c' d)\n  | /* none */ ;\n"

theorem Source.parse_respaced_sample :
    ∃ source, Source.parse Respaced.sampleText none = .ok source ∧
      (∀ token ∈ source.tokens, token.type ∈ blockTypes →
        ∀ c ∈ ['"', '\'', '/'], c ∉ token.text.toList) ∧
      ∃ pairs last, pairs.map Prod.snd = source.tokens.toList ∧
        Respaced.sampleText.toList = weave pairs last ∧ Woven [] 0 pairs last [] ∧
        ∀ others stop, Respaced pairs others → stop.all isSpace = true →
          ∃ other, Source.parse (String.ofList (weave others stop)) none = .ok other ∧
            other.under .unplaced = source.under .unplaced := by
  have hcalm : (Source.parse Respaced.sampleText none).toOption.any (fun source =>
      source.tokens.toList.all fun token => !blockTypes.contains token.type ||
        ['"', '\'', '/'].all fun c => !token.text.toList.contains c) = true := by
    decide +kernel
  obtain ⟨source, hsource⟩ := Source.exists_of_isSome (Option.isSome_of_any hcalm)
  have hcalm : ∀ token ∈ source.tokens, token.type ∈ blockTypes →
      ∀ c ∈ ['"', '\'', '/'], c ∉ token.text.toList := by
    simp only [hsource, Except.toOption, Option.any_some, List.all_eq_true, Bool.or_eq_true,
      Bool.not_eq_true', List.contains_eq_mem, decide_eq_false_iff_not,
      Array.mem_toList_iff] at hcalm
    exact fun token htoken htype => (hcalm token htoken).resolve_left (not_not.2 htype)
  exact ⟨source, hsource, hcalm, Source.parse_respaced hsource hcalm⟩

end GrammarLint
