import GrammarLint.Proofs.Continuations

/-!
# Texts lined up token by token

Two texts are lined up if each token of the one is a token of the other and what comes
after it starts alike.  Blocks need a closer look: in the options of a subrule the
inside of a block is read again, token by token.
-/

namespace GrammarLint.Grammar

open Text

theorem Lined.ends {fits : List Char → List Char → Prop} {last final first second : List Char}
    (h : Lined fits last final [] first second) : first = last ∧ second = final := by
  cases h
  exact ⟨rfl, rfl⟩

section Lexed

variable {enters : Terminal → List Char → Prop} {last chars rest : List Char}
  {lexemes : List Lexeme}

theorem Lexed.solid (h : Lexed enters last lexemes chars) (hne : lexemes ≠ []) : Solid chars := by
  obtain ⟨lexeme, lexemes, rfl⟩ := List.exists_cons_of_ne_nil hne
  obtain ⟨c, more, rfl, hclass⟩ := h.front
  have hgroups : ∀ type ∈ Terminal.all, isSpace type.group = false ∧ type.group ≠ '/' := by decide
  obtain ⟨hspace, hslash⟩ := hgroups _ lexeme.type.mem_all
  rw [← hclass] at hspace hslash
  refine stops_cons.2 (Bool.or_eq_false_iff.2 ⟨?_, ?_⟩)
  · by_contra hblank
    rw [Bool.not_eq_false] at hblank
    have hstart : isIdentStart c = false := by
      by_contra hstart
      have hpart := isIdentPart_of_isIdentStart (Bool.not_eq_false _ ▸ hstart)
      rw [isIdentPart_of_isSpace hblank] at hpart
      cases hpart
    simp [classOf, hstart, isDigit_of_isSpace hblank, hblank] at hspace
  · rw [beq_eq_false_iff_ne]
    rintro rfl
    exact hslash (by decide)

theorem Lexed.solid_end (h : Lexed enters [] lexemes chars) : Solid chars := by
  cases lexemes with
  | nil =>
      cases h
      exact nofun
  | cons lexeme lexemes => exact h.solid (List.cons_ne_nil _ _)

theorem Lexed.solid_append {lexeme : Lexeme} (h : Lexed enters last (lexeme :: lexemes) chars)
    (rest : List Char) : Solid (lexeme.chars ++ rest) := by
  have hsolid := h.solid (List.cons_ne_nil _ _)
  cases h with
  | @cons _ front _ _ hafter _ _ _ =>
      obtain ⟨c, front, rfl⟩ := List.exists_cons_of_ne_nil (Terminal.ne_nil_of_after? hafter)
      exact hsolid

theorem Lexed.uncons {lexeme : Lexeme}
    (h : Lexed enters last (lexeme :: lexemes) (lexeme.chars ++ rest)) :
    lexeme.type.after? (lexeme.chars ++ rest) = some rest ∧ lexeme.type.Precedes lexemes ∧
      enters lexeme.type (lexeme.chars ++ rest) ∧ Lexed enters last lexemes (afterTrivia rest) := by
  generalize htext : lexeme.chars ++ rest = text at h
  cases h with
  | cons hafter hnext henters hmore =>
      obtain rfl := List.append_cancel_left htext
      exact ⟨hafter, hnext, henters, hmore⟩

theorem Lexed.no_dot (hnext : Terminal.qualifiedId.Precedes lexemes)
    (hmore : Lexed enters last lexemes (afterTrivia rest)) : rest.head? ≠ some '.' := by
  intro hdot
  obtain ⟨more, rfl⟩ := List.head?_eq_some_iff.1 hdot
  have hsolid : afterTrivia ('.' :: more) = '.' :: more :=
    congrArg Prod.snd (scanTrivia_eq_nil_of_solid more (by decide) (by decide))
  obtain ⟨next, hnext, htype⟩ := hnext _ rfl
  obtain ⟨others, rfl⟩ := List.head?_eq_some_iff.1 hnext
  obtain ⟨c, _, hchars, hclass⟩ := hmore.front
  rw [hsolid] at hchars
  obtain ⟨rfl, -⟩ := List.cons.inj hchars
  have hnexts : ∀ types ∈ Terminal.qualifiedId.nexts, ∀ type ∈ types, type.group ≠ '.' := by decide
  exact hnexts _ rfl _ htype (hclass.symm.trans (by decide))

theorem Lexed.after?_resumed {type : Terminal} (htype : type ∉ blockTypes)
    (hfirst : type.after? (chars ++ rest) = some rest) (hnext : type.Precedes lexemes)
    (hmore : Lexed enters last lexemes (afterTrivia rest)) {after : List Char}
    (hresumes : Resumes rest after) : type.after? (chars ++ after) = some after := by
  refine Terminal.after?_resumed htype hfirst hresumes ?_
  rintro rfl
  exact hmore.no_dot hnext

end Lexed

/-! ## Options inside a block -/

theorem Mark.apart_rightBrace {sign : Mark} (h : sign ≠ .rightBrace) :
    Terminal.apart (.mark sign) (.mark .rightBrace) = true := by
  have hall : ∀ sign ∈ Mark.all, sign ≠ .rightBrace →
      Terminal.apart (.mark sign) (.mark .rightBrace) = true := by decide
  exact hall sign sign.mem_all h

theorem not_block_of_flat {type : Terminal} (h : type ∈ flatTypes) : type ∉ blockTypes := by
  revert type
  decide

def Kept (lexemes : List Lexeme) (last text after rest : List Char) : Prop :=
  ∃ inner, inner ≠ [] ∧ text = inner ++ after ∧
    Lined (fun _ _ => True) last (afterTrivia rest) lexemes text (inner ++ rest)

section Kept

variable {last after rest : List Char}

theorem Kept.cons {type : Terminal} {chars found : List Char} {lexemes : List Lexeme}
    (htype : type ∉ blockTypes) (hafter : type.after? (chars ++ found) = some found)
    (hnext : type.Precedes lexemes) (henters : Enters type (chars ++ found))
    (hne : lexemes ≠ []) (hmore : Kept lexemes last (afterTrivia found) after rest) :
    Kept (⟨type, chars⟩ :: lexemes) last (chars ++ found) after rest := by
  obtain ⟨inner, hinner, hrest, hlined⟩ := hmore
  have hlexed := hlined.lexed_first
  obtain ⟨gap, hgap, htrivia⟩ := exists_gap found
  have hend : afterTrivia (gap ++ (inner ++ rest)) = inner ++ rest := by
    refine afterTrivia_gap (htrivia.before (hlexed.solid hne) fun hnil => ?_)
      (hlined.lexed_second.solid hne)
    rw [hrest, List.append_eq_nil_iff] at hnil
    exact absurd hnil.1 hinner
  have hresumes : Resumes found (gap ++ (inner ++ rest)) := by
    rw [hgap, hrest, ← List.append_assoc, ← List.append_assoc]
    exact Resumes.of_append (by simp [hinner]) after rest
  refine ⟨chars ++ (gap ++ inner), by simp [hinner], ?_, ?_⟩
  · rw [List.append_assoc, List.append_assoc, ← hrest, ← hgap]
  · rw [List.append_assoc, List.append_assoc]
    refine .cons hafter (hlexed.after?_resumed htype hafter hnext hresumes) hnext henters
      (fun sign => Terminal.after?_mark_resumed (Terminal.ne_nil_of_after? hafter) hresumes)
      (fun hblock => ?_) trivial (hend.symm ▸ hlined)
    exact absurd (by decide) (hblock ▸ htype)

theorem Lexed.kept_options {options : List Lexeme} {text : List Char}
    (h : Lexed Enters last (options ++ [rightBrace]) text)
    (hflat : ∀ lexeme ∈ options, lexeme.type ∈ flatTypes)
    (hskim : Enclosure.braces.skim 0 text = some after) (rest : List Char) :
    Kept (options ++ [rightBrace]) last text after rest := by
  induction options generalizing text with
  | nil =>
      rw [List.nil_append] at h ⊢
      cases h with
      | @cons _ _ found _ hafter hnext henters hmore =>
          obtain rfl : found = after := by
            rw [← Option.some.injEq, ← hskim]
            exact (Enclosure.skim_closing_zero .braces found).symm
          refine ⟨[Enclosure.braces.closing], List.cons_ne_nil _ _, rfl, ?_⟩
          generalize hend : afterTrivia found = stop at hmore
          cases hmore
          refine .cons hafter (Terminal.after?_mark.2 rfl) hnext henters (fun sign hnone => ?_)
            nofun trivial (hend ▸ .nil)
          by_cases hsign : sign = .rightBrace
          · subst hsign
            rw [hafter] at hnone
            cases hnone
          · exact Terminal.after?_of_apart (Terminal.after?_mark.2 rfl)
              (Mark.apart_rightBrace hsign)
  | cons lexeme options ih =>
      rw [List.forall_mem_cons] at hflat
      cases h with
      | cons hafter hnext henters hmore =>
          rw [skim_token hflat.1 hafter, ← skim_afterTrivia] at hskim
          exact Kept.cons (not_block_of_flat hflat.1) hafter hnext henters (by simp)
            (ih hmore hflat.2 hskim)

end Kept

theorem Lined.refuses_optionsColon {fits : List Char → List Char → Prop}
    {last final chars rest after : List Char} {lexemes : List Lexeme}
    (hsecond : Terminal.actionBlock.after? (chars ++ after) = some after)
    (hmore : Lined fits last final lexemes (afterTrivia rest) (afterTrivia after))
    (hcolon : (Terminal.mark .colon).after? final = none)
    (hrefuses : Refuses optionsColon (chars ++ rest)) : Refuses optionsColon (chars ++ after) := by
  have htail (text : List Char) : Refuses (.inOrder (Mark.expr .colon) [gap]) text ↔
      (Terminal.mark .colon).after? text = none := by
    change Refuses (.seq (.rule (.terminal (.mark .colon))) gap) text ↔ _
    rw [refuses_before_gap, refuses_token]
  rw [optionsColon, refuses_seq rfl] at hrefuses ⊢
  intro offset trees next hyields
  rw [htail]
  obtain ⟨options, hlexemes, hflat⟩ := optionsTail_lexemes hyields
  obtain ⟨found, hfound, hnext⟩ := optionsTail_block hyields
  obtain rfl : after = found := by
    rw [← Option.some.injEq, ← hsecond, hfound]
  have hlexed : Lexed Enters next.rest (Tree.allLexemes trees ++ []) (chars ++ after) :=
    hyields.lexed (by decide : optionsTail.turn true = some true)
      (by decide : optionsTail.check .any = true) nofun trivial .nil
  have hkept : Kept (Tree.allLexemes trees) next.rest (chars ++ after) after rest := by
    rw [hlexemes, List.append_nil] at hlexed
    rw [hlexemes]
    generalize htext : chars ++ after = text at hlexed hsecond ⊢
    cases hlexed with
    | @cons _ _ inside _ hafter hnext henters hmore =>
        have hskim : Enclosure.braces.skim 0 (afterTrivia inside) = some after := by
          rw [skim_afterTrivia]
          exact hsecond
        exact Kept.cons (by decide) hafter hnext henters (by simp)
          (hmore.kept_options hflat hskim rest)
  obtain ⟨inner, -, hinner, hlined⟩ := hkept
  obtain rfl := List.append_cancel_right hinner
  have hstop : Lined.Closes (fun _ _ => True) next.rest (afterTrivia rest) (fun _ => False) :=
    fun _ _ _ _ hfalse => hfalse.elim
  rw [← List.append_nil (Tree.allLexemes trees)] at hlined
  obtain ⟨others, later, hothers, -, hends, -⟩ := hyields.retold hstop
    (by decide : optionsTail.turn true = some true) (by decide : optionsTail.check .any = true)
    trivial hlined (⟨rfl, rfl⟩ : Aligned _ _ ⟨offset, chars ++ after⟩ ⟨0, chars ++ rest⟩)
  have hnone : (Terminal.mark .colon).after? (afterTrivia rest) = none := by
    have hlater : later.rest = afterTrivia rest := hends.ends.2
    exact hlater ▸ (htail _).1 (hrefuses 0 others later hothers)
  rw [hnext]
  cases lexemes with
  | nil => rwa [hmore.ends.2]
  | cons lexeme lexemes => exact hmore.marks hnone

theorem Lined.token {fits : List Char → List Char → Prop} {last final chars rest after : List Char}
    {type : Terminal} {lexemes : List Lexeme} (hfirst : type.after? (chars ++ rest) = some rest)
    (hsecond : type ∈ blockTypes → type.after? (chars ++ after) = some after)
    (hnext : type.Precedes lexemes) (henters : Enters type (chars ++ rest))
    (hresumes : Resumes rest after) (hcolon : (Terminal.mark .colon).after? final = none)
    (hfits : fits (chars ++ rest) (chars ++ after))
    (hmore : Lined fits last final lexemes (afterTrivia rest) (afterTrivia after)) :
    Lined fits last final (⟨type, chars⟩ :: lexemes) (chars ++ rest) (chars ++ after) := by
  have hafter : type.after? (chars ++ after) = some after := by
    by_cases htype : type ∈ blockTypes
    · exact hsecond htype
    · exact hmore.lexed_first.after?_resumed htype hfirst hnext hresumes
  refine .cons hfirst hafter hnext henters (fun sign => ?_) ?_ hfits hmore
  · exact Terminal.after?_mark_resumed (Terminal.ne_nil_of_after? hfirst) hresumes
  · rintro rfl hrefuses
    exact hmore.refuses_optionsColon hafter hcolon hrefuses

end GrammarLint.Grammar
