import GrammarLint.Proofs.Refusals

/-!
# Options read as a block

The braces of an options section and all between them are also an embedded block, with
the same end: no token of an option and no trivia has a brace that a block would count.
-/

namespace GrammarLint.Grammar

open Text

/-! ## Skimming over trivia and tokens -/

theorem Enclosure.comment?_front {chars taken rest : List Char}
    (h : Enclosure.braces.comment? chars = some (taken, rest)) :
    ∃ more, chars = '/' :: more := by
  rcases Option.or_eq_some_iff.1 h with hline | ⟨-, hblock⟩
  · obtain ⟨comment, rfl, -, -⟩ := scanLineComment?_shape hline
    exact ⟨_, (scanLineComment?_split hline).symm⟩
  · obtain ⟨comment, rfl, -⟩ := scanBlockComment?_shape hblock
    exact ⟨_, (scanBlockComment?_split hblock).symm⟩

theorem skim_comment {chars taken rest : List Char}
    (h : Enclosure.braces.comment? chars = some (taken, rest)) (depth : Nat) :
    Enclosure.braces.skim depth chars = Enclosure.braces.skim depth rest := by
  obtain ⟨more, rfl⟩ := Enclosure.comment?_front h
  rw [Enclosure.skim_hop depth (by decide) (by decide)]
  simp [Enclosure.hop, Pattern.scan?, h]

theorem special_of_isSpace {c : Char} (h : isSpace c = true) : c ∉ Enclosure.braces.special := by
  intro hspecial
  simp only [Enclosure.special, List.mem_cons, List.not_mem_nil, or_false] at hspecial
  rcases hspecial with rfl | rfl | rfl | rfl | rfl <;> revert h <;> decide

theorem skim_afterTrivia (depth : Nat) (chars : List Char) :
    Enclosure.braces.skim depth (afterTrivia chars) = Enclosure.braces.skim depth chars := by
  induction chars using trivia_induction with
  | nil => rfl
  | space c chars hspace ih =>
      rw [afterTrivia_space hspace, ih, Enclosure.skim_ordinary (special_of_isSpace hspace)]
  | comment chars taken rest hcomment ih =>
      rw [afterTrivia_comment hcomment, ih, skim_comment hcomment]
  | solid c chars hspace hcomment => rw [afterTrivia_solid hspace hcomment]

def flatTypes : List Terminal :=
  [.identifier, .qualifiedId, .stringLiteral, .integer, .mark .assign, .mark .star,
    .mark .semicolon]

theorem isIdentPart_or_dot_of_scanQualifiers (inName : Bool) (chars : List Char) :
    ∀ c ∈ (scanQualifiers inName chars).1, isIdentPart c = true ∨ c = '.' := by
  fun_induction scanQualifiers inName chars with
  | case1 => simp
  | case2 inName c chars hpart more rest hmore ih =>
      rw [hmore] at ih
      simp only [Bool.and_eq_true] at hpart
      exact List.forall_mem_cons.2 ⟨.inl hpart.2, ih⟩
  | case3 inName d chars hstart more rest hmore _ ih =>
      rw [hmore] at ih
      exact List.forall_mem_cons.2 ⟨.inr rfl, List.forall_mem_cons.2
        ⟨.inl (isIdentPart_of_isIdentStart hstart), ih⟩⟩
  | case4 => simp
  | case5 => simp

theorem special_of_part {c : Char} (h : isIdentPart c = true ∨ c = '.') :
    c ∉ Enclosure.braces.special := by
  intro hspecial
  simp only [Enclosure.special, List.mem_cons, List.not_mem_nil, or_false] at hspecial
  rcases hspecial with rfl | rfl | rfl | rfl | rfl <;> revert h <;> decide

theorem isIdentPart_of_isDigit {c : Char} (h : c.isDigit = true) : isIdentPart c = true := by
  simp [isIdentPart, Char.isAlphanum, h]

theorem skim_mark {sign : Mark}
    (hplain : (sign.text.toList.all fun c => !Enclosure.braces.special.contains c) = true)
    {chars rest : List Char} (h : (Terminal.mark sign).after? chars = some rest) (depth : Nat) :
    Enclosure.braces.skim depth chars = Enclosure.braces.skim depth rest := by
  have hordinary : ∀ c ∈ sign.text.toList, c ∉ Enclosure.braces.special := by simpa using hplain
  rw [Terminal.after?_mark.1 h]
  exact Enclosure.skim_run hordinary depth rest

theorem skim_token {type : Terminal} (htype : type ∈ flatTypes) {chars rest : List Char}
    (h : type.after? chars = some rest) (depth : Nat) :
    Enclosure.braces.skim depth chars = Enclosure.braces.skim depth rest := by
  simp only [flatTypes, List.mem_cons, List.not_mem_nil, or_false] at htype
  rcases htype with rfl | rfl | rfl | rfl | rfl | rfl | rfl
  · obtain ⟨⟨taken, rest⟩, hscan, rfl⟩ := Option.map_eq_some_iff.1 h
    rw [← scanIdentifier?_split hscan]
    exact Enclosure.skim_run (fun c hc => special_of_part
      (.inl (all_isIdentPart (isName_of_scanIdentifier? hscan) c hc))) depth rest
  · obtain ⟨⟨taken, rest⟩, hscan, rfl⟩ := Option.map_eq_some_iff.1 h
    rw [← Pattern.scan?_split hscan]
    obtain ⟨⟨name, after⟩, hname, heq⟩ := Option.map_eq_some_iff.1 hscan
    cases heq
    refine Enclosure.skim_run (fun c hc => special_of_part ?_) depth _
    rcases List.mem_append.1 hc with hc | hc
    · exact .inl (all_isIdentPart (isName_of_scanIdentifier? hname) c hc)
    · exact isIdentPart_or_dot_of_scanQualifiers false after c hc
  · obtain ⟨⟨taken, rest⟩, hscan, rfl⟩ := Option.map_eq_some_iff.1 h
    obtain ⟨more, rfl⟩ : ∃ more, chars = '\'' :: more := by
      cases chars with
      | nil => cases hscan
      | cons c more =>
          rw [Pattern.scan?, Option.ite_none_right_eq_some] at hscan
          exact ⟨more, by rw [hscan.1]⟩
    rw [Enclosure.skim_hop depth (by decide) (by decide)]
    have hdouble : (Pattern.quoted '"').scan? ('\'' :: more) = none := by simp [Pattern.scan?]
    simp [Enclosure.hop, hdouble, hscan]
  · obtain ⟨⟨taken, rest⟩, hscan, rfl⟩ := Option.map_eq_some_iff.1 h
    rw [← Pattern.scan?_split hscan]
    simp only [Pattern.scan?] at hscan
    split at hscan
    · cases hscan
    · cases hscan
      exact Enclosure.skim_run (fun c hc => special_of_part
        (.inl (isIdentPart_of_isDigit (List.mem_takeWhile_imp hc)))) depth _
  · exact skim_mark (by decide) h depth
  · exact skim_mark (by decide) h depth
  · exact skim_mark (by decide) h depth

/-! ## The types of the tokens of a match -/

/-- The rules an expression refers to, and those that these refer to, are among the rules. -/
structure Expr.Within (rules : List Rule) (expr : Expr) : Prop where
  rules_subset : expr.rules ⊆ rules
  closed : ∀ rule ∈ rules, rule.body.rules ⊆ rules

theorem Yields.type_mem {expr : Expr} {cursor next : Cursor} {trees : List Tree}
    (h : Yields expr cursor (some (trees, next))) (hvisible : expr.visible = true)
    {rules : List Rule} (hwithin : expr.Within rules) :
    ∀ lexeme ∈ Tree.allLexemes trees, Rule.terminal lexeme.type ∈ rules := by
  refine h.visible_induction
    (motive := fun _ trees _ => ∀ lexeme ∈ Tree.allLexemes trees,
      Rule.terminal lexeme.type ∈ rules)
    hwithin.closed ?terminal ?trivia ?group ?nil ?append hvisible hwithin.rules_subset
  case terminal =>
    intro type cursor next children hrule _
    simpa using hrule
  case trivia => simp
  case group =>
    intro rule cursor next children hgrouping _ ih
    rwa [Tree.allLexemes_group hgrouping]
  case nil => simp
  case append =>
    intro cursor middle next trees more _ _ ih ihMore
    rw [Tree.allLexemes_append, List.forall_mem_append]
    exact ⟨ih, ihMore⟩

/-! ## The braces of options -/

def optionsTail : Expr :=
  .inOrder (Mark.expr .leftBrace)
    [gap, .many (Rule.expr .option), Mark.expr .rightBrace, gap]

def optionRules : List Rule :=
  .option :: .optionValue :: .trivia :: flatTypes.map .terminal

theorem within_options : (Expr.many (Rule.expr .option)).Within optionRules :=
  ⟨by decide, by decide⟩

theorem type_mem_flat {cursor next : Cursor} {trees : List Tree}
    (h : Yields (.many (Rule.expr .option)) cursor (some (trees, next))) :
    ∀ lexeme ∈ Tree.allLexemes trees, lexeme.type ∈ flatTypes := by
  intro lexeme hlexeme
  simpa [optionRules] using h.type_mem rfl within_options lexeme hlexeme

theorem Lexed.skims {enters : Terminal → List Char → Prop} {last chars : List Char}
    {lexemes more : List Lexeme} (h : Lexed enters last (lexemes ++ more) chars)
    (hflat : ∀ lexeme ∈ lexemes, lexeme.type ∈ flatTypes) :
    ∃ rest, Lexed enters last more rest ∧
      ∀ depth, Enclosure.braces.skim depth chars = Enclosure.braces.skim depth rest := by
  induction lexemes generalizing chars with
  | nil => exact ⟨chars, h, fun _ => rfl⟩
  | cons lexeme lexemes ih =>
      rw [List.forall_mem_cons] at hflat
      cases h with
      | cons hafter _ _ hmore =>
          obtain ⟨rest, hrest, hskims⟩ := ih hmore hflat.2
          refine ⟨rest, hrest, fun depth => ?_⟩
          rw [skim_token hflat.1 hafter, ← hskims, skim_afterTrivia]

def leftBrace : Lexeme := ⟨.mark .leftBrace, [Enclosure.braces.opening]⟩

def rightBrace : Lexeme := ⟨.mark .rightBrace, [Enclosure.braces.closing]⟩

theorem optionsTail_lexemes {cursor next : Cursor} {trees : List Tree}
    (h : Yields optionsTail cursor (some (trees, next))) :
    ∃ options, Tree.allLexemes trees = leftBrace :: options ++ [rightBrace] ∧
      ∀ lexeme ∈ options, lexeme.type ∈ flatTypes := by
  cases h with
  | seq hleft h => cases h with
    | seq hfirst h => cases h with
      | seq hoptions h => cases h with
        | seq hright hlast =>
            refine ⟨_, ?_, type_mem_flat hoptions⟩
            simp only [Tree.allLexemes_append, lexemes_mark hleft, lexemes_gap hfirst,
              lexemes_mark hright, lexemes_gap hlast]
            rfl

theorem optionsTail_block {cursor next : Cursor} {trees : List Tree}
    (h : Yields optionsTail cursor (some (trees, next))) :
    ∃ rest, Terminal.actionBlock.after? cursor.rest = some rest ∧
      next.rest = afterTrivia rest := by
  obtain ⟨options, hlexemes, hflat⟩ := optionsTail_lexemes h
  have hlexed : Lexed Enters next.rest (Tree.allLexemes trees ++ []) cursor.rest :=
    h.lexed (by decide : optionsTail.turn true = some true)
      (by decide : optionsTail.check .any = true) nofun trivial .nil
  rw [List.append_nil, hlexemes] at hlexed
  obtain ⟨offset, chars⟩ := cursor
  cases hlexed with
  | @cons _ _ inside _ hafter _ _ hmore =>
      obtain ⟨rest, hrest, hskims⟩ := hmore.skims hflat
      cases hrest with
      | @cons _ _ after _ hafter' _ _ hlast =>
          refine ⟨after, ?_, ?_⟩
          · change Enclosure.braces.skim 0 inside = some after
            rw [← skim_afterTrivia, hskims]
            exact Enclosure.skim_closing_zero _ _
          · generalize afterTrivia after = last at hlast
            cases hlast
            rfl

end GrammarLint.Grammar
