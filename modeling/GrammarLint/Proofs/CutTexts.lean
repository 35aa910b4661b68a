import GrammarLint.Proofs.WholeFiles

/-!
# Texts cut after a file

The end of a file that is followed by something else.  What was read of the text is read
of the text without what follows: no token, comment or block that ends before the cut was
read with the help of what comes after it, and nothing that failed for what comes after it
is read now.
-/

namespace GrammarLint.Grammar

open Text

/-! ## Trivia -/

theorem Trivia.cut {gap rest last : List Char} (h : Trivia gap (rest ++ last)) :
    Trivia gap rest := by
  generalize hlong : rest ++ last = long at h
  induction h with
  | none => exact .none rest
  | space hspace _ ih => exact .space hspace (ih hlong)
  | @line comment gap _ hline hend _ ih =>
      refine .line hline (fun c hc => hend c ?_) (ih hlong)
      rw [← hlong, ← List.append_assoc]
      exact List.mem_head?_append_of_mem_head? hc
  | block hfirst _ ih => exact .block hfirst (ih hlong)

/-! ## Scanners -/

/-- The scanner finds in a cut text what it found before the cut, and nothing else. -/
structure Cuts (scan : List Char → Option (List Char × List Char)) : Prop where
  found : ∀ {taken rest last}, scan (taken ++ (rest ++ last)) = some (taken, rest ++ last) →
    scan (taken ++ rest) = some (taken, rest)
  missed : ∀ {chars last}, scan (chars ++ last) = none → scan chars = none

namespace Cuts

theorem or {first second : List Char → Option (List Char × List Char)} (hfirst : Cuts first)
    (hsecond : Cuts second) : Cuts fun chars => (first chars).or (second chars) where
  found h := by
    rcases Option.or_eq_some_iff.1 h with hfound | ⟨hmissed, hfound⟩
    · exact Option.or_eq_some_iff.2 (.inl (hfirst.found hfound))
    · rw [← List.append_assoc] at hmissed
      exact Option.or_eq_some_iff.2 (.inr ⟨hfirst.missed hmissed, hsecond.found hfound⟩)
  missed h := by
    rw [Option.or_eq_none_iff] at h ⊢
    exact ⟨hfirst.missed h.1, hsecond.missed h.2⟩

theorem quoted {quote : Char} (hslash : quote ≠ '\\') : Cuts (Pattern.quoted quote).scan? where
  found h := scan?_quoted_closed hslash h _
  missed := by
    intro chars last h
    by_contra hsome
    obtain ⟨⟨taken, rest⟩, hfound⟩ := Option.ne_none_iff_exists'.1 hsome
    rw [← Pattern.scan?_split hfound, List.append_assoc, scan?_quoted_closed hslash hfound] at h
    cases h

theorem lineComment : Cuts scanLineComment? where
  found := by
    intro taken rest last h
    obtain ⟨comment, rfl, hline, hend⟩ := scanLineComment?_shape h
    refine scanLineComment?_end hline fun c hc => hend c ?_
    exact List.mem_head?_append_of_mem_head? hc
  missed := by
    intro chars last h
    rw [scanLineComment?_eq, ite_eq_right_iff] at h ⊢
    intro hslashes
    rw [List.isPrefixOf_iff_prefix] at h hslashes
    exact absurd (h (hslashes.trans (List.prefix_append _ _))) nofun

theorem blockComment : Cuts scanBlockComment? where
  found := by
    intro taken rest last h
    obtain ⟨comment, rfl, hfirst⟩ := scanBlockComment?_shape h
    simpa using scanBlockComment?_first rest hfirst
  missed := by
    intro chars last h
    by_contra hsome
    obtain ⟨⟨taken, rest⟩, hfound⟩ := Option.ne_none_iff_exists'.1 hsome
    obtain ⟨comment, rfl, hfirst⟩ := scanBlockComment?_shape hfound
    have hlong := scanBlockComment?_first (rest ++ last) hfirst
    rw [← scanBlockComment?_split hfound] at h
    simp only [List.append_assoc, List.cons_append, List.nil_append] at h hlong
    rw [hlong] at h
    cases h

theorem comment? (enclosure : Enclosure) : Cuts enclosure.comment? := by
  cases enclosure with
  | braces => exact lineComment.or blockComment
  | brackets => exact ⟨nofun, fun _ => rfl⟩

end Cuts

/-! ## Blocks -/

namespace Enclosure

variable {enclosure : Enclosure} {depth : Nat} {chars rest : List Char}

def hurdle? (enclosure : Enclosure) (chars : List Char) : Option (List Char × List Char) :=
  ((Pattern.quoted '"').scan? chars).or
    (((Pattern.quoted '\'').scan? chars).or (enclosure.comment? chars))

theorem hop_eq (chars : List Char) :
    enclosure.hop chars = ((enclosure.hurdle? chars).map Prod.snd).getD chars.tail := by
  unfold hop hurdle?
  cases (Pattern.quoted '"').scan? chars with
  | some found => rfl
  | none => cases (Pattern.quoted '\'').scan? chars with
    | some found => rfl
    | none => cases enclosure.comment? chars <;> rfl

theorem hurdle?_split {taken : List Char} (h : enclosure.hurdle? chars = some (taken, rest)) :
    taken ++ rest = chars := by
  rcases Option.or_eq_some_iff.1 h with h | ⟨-, h⟩
  · exact Pattern.scan?_split h
  · rcases Option.or_eq_some_iff.1 h with h | ⟨-, h⟩
    · exact Pattern.scan?_split h
    · exact comment?_split h

theorem cuts_hurdle? (enclosure : Enclosure) : Cuts enclosure.hurdle? :=
  (Cuts.quoted (by decide)).or ((Cuts.quoted (by decide)).or (Cuts.comment? enclosure))

theorem hop_cut {c : Char} {last : List Char}
    (h : enclosure.hop (c :: chars ++ last) = rest ++ last) :
    enclosure.hop (c :: chars) = rest := by
  rw [hop_eq] at h ⊢
  cases hlong : enclosure.hurdle? (c :: chars ++ last) with
  | some found =>
      obtain ⟨taken, after⟩ := found
      rw [hlong] at h
      obtain rfl : after = rest ++ last := h
      have hsplit := hurdle?_split hlong
      rw [← List.append_assoc] at hsplit
      have hchars := List.append_cancel_right hsplit
      rw [← hchars, List.append_assoc] at hlong
      rw [← hchars, enclosure.cuts_hurdle?.found hlong]
      rfl
  | none =>
      rw [hlong, Option.map_none, Option.getD_none, List.cons_append, List.tail_cons] at h
      rw [enclosure.cuts_hurdle?.missed hlong]
      exact List.append_cancel_right h

theorem skim_cut {last : List Char}
    (h : enclosure.skim depth (chars ++ (rest ++ last)) = some (rest ++ last)) :
    enclosure.skim depth (chars ++ rest) = some rest := by
  refine skim_resumed (fun c part inner _ hinner => ?_) h
  rw [← List.append_assoc, ← List.cons_append, ← List.append_assoc] at hinner
  exact hop_cut hinner

end Enclosure

theorem Terminal.after?_cut {type : Terminal} {chars rest last : List Char}
    (htype : type ∈ blockTypes)
    (h : type.after? (chars ++ (rest ++ last)) = some (rest ++ last)) :
    type.after? (chars ++ rest) = some rest := by
  obtain ⟨enclosure, rfl⟩ := Enclosure.exists_terminal htype
  obtain ⟨c, chars, rfl⟩ := List.exists_cons_of_ne_nil (Terminal.ne_nil_of_after? h)
  rw [List.cons_append, Enclosure.after?_terminal, Enclosure.afterBlock_cons] at h ⊢
  exact ⟨h.1, Enclosure.skim_cut h.2⟩

/-! ## Files -/

section Files

variable {last chars : List Char} {lexemes : List Lexeme}

theorem Lined.cut_gap {fits : List Char → List Char → Prop} {text front : List Char}
    (h : Lined fits last [] lexemes (afterTrivia text) front)
    (hfront : afterTrivia text = front ++ last) :
    ∃ cut, text = cut ++ last ∧
      Lined fits last [] lexemes (afterTrivia text) (afterTrivia cut) := by
  obtain ⟨gap, hgap, htrivia⟩ := exists_gap text
  have hcut : Trivia gap front := (hfront ▸ htrivia).cut
  refine ⟨gap ++ front, ?_, ?_⟩
  · rw [List.append_assoc, ← hfront]
    exact hgap
  · rwa [afterTrivia_gap hcut h.lexed_second.solid_end]

theorem Lexed.lined_cut (h : Lexed Enters last lexemes chars) :
    ∃ front, chars = front ++ last ∧
      Lined (fun first second => first = second ++ last) last [] lexemes chars front := by
  induction h with
  | nil => exact ⟨[], rfl, .nil⟩
  | @cons type token rest lexemes hafter hnext henters _ ih =>
      obtain ⟨front, hfront, hmore⟩ := ih
      obtain ⟨cut, rfl, hlined⟩ := hmore.cut_gap hfront
      have hresumes : Resumes (cut ++ last) cut :=
        fun c hc => .inr (.inr (List.mem_head?_append_of_mem_head? hc))
      exact ⟨token ++ cut, (List.append_assoc _ _ _).symm,
        .token hafter (fun hblock => Terminal.after?_cut hblock hafter) hnext henters hresumes rfl
          (List.append_assoc _ _ _).symm hlined⟩

variable {text : List Char} {gaps head sections rules : List Tree}
  {start body first next : Cursor}

theorem ReadsFile.take_offset
    (h : ReadsFile text gaps head sections rules start body first next) :
    text = text.take next.offset ++ next.rest := by
  have hmoves := (readsFile_iff.2 ⟨_, _, _, _, _, _, _, h, rfl⟩).moves
  have hrest : text = _ ++ next.rest := hmoves.rest_eq
  have hoffset : next.offset = _ := hmoves.offset_eq.trans (Nat.zero_add _)
  rw [hoffset, hrest, List.take_left]

theorem ReadsFile.accepts_cut (h : ReadsFile text gaps head sections rules start body first next) :
    ∃ tree, Accepts .grammarFile (text.take next.offset) tree := by
  obtain ⟨front, hfront, hmore⟩ := h.lexed.lined_cut
  obtain ⟨cut, hcut, hlined⟩ := hmore.cut_gap hfront
  have hdone (later : Cursor) (hrest : later.rest = [])
      (hoffset : later.offset + later.rest.length = cut.length) :
      Yields (.many (.rule .ruleSpec)) later (some ([], ⟨cut.length, []⟩)) := by
    obtain ⟨offset, rest⟩ := later
    subst hrest
    subst hoffset
    exact .manyAtEnd rfl
  obtain ⟨others, hyields, -⟩ := h.retold hlined refuses_closers_nil (fun _ => rfl) hdone
  rw [List.append_cancel_right (h.take_offset.symm.trans hcut)]
  exact ⟨_, _, hyields, rfl⟩

end Files

end GrammarLint.Grammar
