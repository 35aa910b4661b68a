import GrammarLint.Proofs.Lookahead

/-!
# How rules start

A rule starts with a modifier, or with its name and one of a few tokens.  Where a rule
starts, and it is not one that reads as a scope of the grammar, neither a section nor an
exception clause is read.
-/

namespace GrammarLint.Grammar

open Text

def Terminal.isNamed : Terminal → Bool
  | .identifier => true
  | .keyword _ => true
  | _ => false

def headTypes : List Terminal :=
  [.keyword .returns, .keyword .throws, .keyword .options, .keyword .scope, .mark .atSign,
    .mark .colon]

/-- The lexemes at a place where rules are read: none, or those of a rule. -/
inductive Fronted : List Lexeme → Prop where
  | none : Fronted []
  | modified {lexeme : Lexeme} {lexemes : List Lexeme}
      (htype : lexeme.type ∈ modifiers.map .keyword) : Fronted (lexeme :: lexemes)
  | named {name second : Lexeme} {lexemes : List Lexeme} (hname : name.type = .identifier)
      (hsecond : second.type ∈ .mark .bang :: headTypes) : Fronted (name :: second :: lexemes)
  | withArgs {name args third : Lexeme} {lexemes : List Lexeme} (hname : name.type = .identifier)
      (hargs : args.type = .argBlock) (hthird : third.type ∈ headTypes) :
      Fronted (name :: args :: third :: lexemes)

def ruleTail : Expr :=
  .inOrder (.optional (Rule.expr .returnsSpec))
    [.optional (Rule.expr .throwsSpec), .optional (Rule.expr .optionsSpec),
      .optional (Rule.expr .ruleScope), .many (Rule.expr .actionSpec), Mark.expr .colon, gap,
      Rule.expr .altList, Mark.expr .semicolon, gap, .optional (Rule.expr .exceptionGroup)]

theorem ruleSpec_body : Rule.ruleSpec.body =
    .seq (.optional (Rule.expr .ruleModifier)) (.seq identifier (.seq gap
      (.seq (.optional (Rule.expr .ruleBang))
        (.seq (.optional (Rule.expr .ruleArgs)) ruleTail)))) :=
  rfl

theorem lexemes_optional {rule : Rule} {cursor next : Cursor} {trees : List Tree}
    (h : Yields (.optional (.rule rule)) cursor (some (trees, next)))
    (hturn : rule.turn true = some true) :
    Tree.allLexemes trees = [] ∨ ∃ lexeme lexemes, Tree.allLexemes trees = lexeme :: lexemes ∧
      lexeme.type ∈ Rule.heads 6 rule := by
  have hoptional : (Expr.optional (.rule rule)).turn true = some true := by
    simp [Expr.turn, hturn]
  have hopens := h.opens hoptional 6
  cases hlexemes : Tree.allLexemes trees with
  | nil => exact .inl rfl
  | cons lexeme lexemes =>
      exact .inr ⟨lexeme, lexemes, rfl, (hopens.head lexeme (by simp [hlexemes])).1⟩

theorem lexemes_ruleArgs {cursor next : Cursor} {trees : List Tree}
    (h : Yields (.optional (Rule.expr .ruleArgs)) cursor (some (trees, next))) :
    Tree.allLexemes trees = [] ∨ ∃ chars, Tree.allLexemes trees = [⟨.argBlock, chars⟩] := by
  cases h with
  | optionalAtEnd | optionalNone => exact .inl rfl
  | optionalSome _ h => cases h with
    | rule h => cases h with
      | seq hargs hgap =>
          obtain ⟨chars, hargs⟩ := lexemes_token hargs
          refine .inr ⟨chars, ?_⟩
          rw [Tree.allLexemes_group rfl, Tree.allLexemes_append, hargs, lexemes_gap hgap]
          rfl

theorem lexemes_ruleTail {cursor next : Cursor} {trees : List Tree}
    (h : Yields ruleTail cursor (some (trees, next))) :
    ∃ lexeme lexemes, Tree.allLexemes trees = lexeme :: lexemes ∧ lexeme.type ∈ headTypes := by
  have hopens := h.opens (by decide : ruleTail.turn true = some true) 6
  cases hlexemes : Tree.allLexemes trees with
  | nil => exact absurd (hopens.none hlexemes).1 (by decide)
  | cons lexeme lexemes =>
      exact ⟨lexeme, lexemes, rfl, (hopens.head lexeme (by simp [hlexemes])).1⟩

theorem Yields.fronted {cursor next : Cursor} {trees : List Tree}
    (h : Yields (.rule .ruleSpec) cursor (some (trees, next))) (more : List Lexeme) :
    Fronted (Tree.allLexemes trees ++ more) := by
  cases h with
  | rule h =>
      rw [ruleSpec_body] at h
      rw [Tree.allLexemes_group rfl]
      cases h with
      | seq hmodifier h => cases h with
        | seq hname h => cases h with
          | seq hgap h => cases h with
            | seq hbang h => cases h with
              | seq hargs htail =>
                  obtain ⟨chars, hname⟩ := lexemes_token hname
                  obtain ⟨third, rest, htail, hthird⟩ := lexemes_ruleTail htail
                  simp only [Tree.allLexemes_append, hname, lexemes_gap hgap, htail,
                    List.append_assoc]
                  rcases lexemes_optional hmodifier rfl with
                    hnone | ⟨lexeme, lexemes, hsome, htype⟩
                  · rw [hnone]
                    rcases lexemes_optional hbang rfl with hbang | ⟨lexeme, lexemes, hbang, htype⟩
                    · rw [hbang]
                      rcases lexemes_ruleArgs hargs with hargs | ⟨_, hargs⟩
                      · rw [hargs]
                        exact .named rfl (List.mem_cons_of_mem _ hthird)
                      · rw [hargs]
                        exact .withArgs rfl rfl hthird
                    · rw [hbang]
                      exact .named rfl (List.mem_singleton.1 htype ▸ List.mem_cons_self)
                  · rw [hsome]
                    exact .modified htype

theorem Fronted.cases {lexeme : Lexeme} {lexemes : List Lexeme}
    (h : Fronted (lexeme :: lexemes)) :
    lexeme.type ∈ modifiers.map .keyword ∨ lexeme.type = .identifier ∧
      ∃ second more, lexemes = second :: more ∧
        second.type ∈ .argBlock :: .mark .bang :: headTypes := by
  cases h with
  | modified htype => exact .inl htype
  | named hname hsecond => exact .inr ⟨hname, _, _, rfl, List.mem_cons_of_mem _ hsecond⟩
  | withArgs hname hargs _ => exact .inr ⟨hname, _, _, rfl, hargs ▸ List.mem_cons_self⟩

/-! ## Attempts at the start of a rule -/

section Refusals

variable {enters : Terminal → List Char → Prop} {last chars : List Char} {lexeme : Lexeme}
  {lexemes : List Lexeme}

theorem Lexed.refuses_at (h : Lexed enters last (lexeme :: lexemes) chars) {type : Terminal}
    (hapart : type.apart lexeme.type = true) : Refuses (.rule (.terminal type)) chars := by
  cases h with
  | cons hafter _ _ _ => exact refuses_token.2 (Terminal.after?_of_apart hafter hapart)

theorem Lexed.refuses_past (h : Lexed enters last (lexeme :: lexemes) chars) {type : Terminal}
    {more : Expr}
    (hsame : type = lexeme.type ∨ type.isNamed = true ∧ lexeme.type = .identifier ∨
      type = .identifier ∧ lexeme.type.isKeyword = true)
    (hvisible : more.visible = true)
    (hmore : ∀ rest, Lexed enters last lexemes (afterTrivia rest) → Refuses more rest) :
    Refuses (.seq (.rule (.terminal type)) more) chars := by
  cases h with
  | @cons front name rest _ hafter hnext _ hlexed =>
      rw [refuses_seq_token hvisible]
      intro found hfound
      have hfound : found = rest := by
        rcases hsame with rfl | ⟨htype, rfl⟩ | ⟨rfl, hkeyword⟩
        · rw [hafter] at hfound
          exact (Option.some.inj hfound).symm
        · obtain ⟨hname, hstops⟩ := Lexed.name hafter hnext hlexed (.inl rfl)
          cases type with
          | identifier =>
              rw [hafter] at hfound
              exact (Option.some.inj hfound).symm
          | keyword word =>
              rw [Terminal.after?_keyword word hname hstops,
                Option.ite_none_right_eq_some] at hfound
              exact (Option.some.inj hfound.2).symm
          | _ => cases htype
        · obtain ⟨hname, hstops⟩ := Lexed.name hafter hnext hlexed (.inr hkeyword)
          rw [Terminal.after?_identifier hname hstops] at hfound
          exact (Option.some.inj hfound).symm
      exact hfound ▸ hmore _ hlexed

theorem Lexed.refuses_past_gap (h : Lexed enters last (lexeme :: lexemes) chars) {type : Terminal}
    {more : Expr}
    (hsame : type = lexeme.type ∨ type.isNamed = true ∧ lexeme.type = .identifier ∨
      type = .identifier ∧ lexeme.type.isKeyword = true)
    (hvisible : more.visible = true)
    (hmore : ∀ rest, Lexed enters last lexemes rest → Refuses more rest) :
    Refuses (.seq (.rule (.terminal type)) (.seq gap more)) chars :=
  h.refuses_past hsame hvisible fun _ hrest => (refuses_seq_gap hvisible).2 (hmore _ hrest)

theorem Lexed.refuses_catchClause (h : Lexed enters last (lexeme :: lexemes) chars)
    (hfront : Fronted (lexeme :: lexemes)) : Refuses (.rule .catchClause) chars := by
  have hmodifier : ∀ type ∈ modifiers.map Terminal.keyword,
      ((Rule.expr .catchClause).heads (Rule.heads 6)).all (·.apart type) = true := by decide
  have hargBlock : ∀ type ∈ .mark .bang :: headTypes, Terminal.argBlock.apart type = true := by
    decide
  have hactionBlock : ∀ type ∈ headTypes, Terminal.actionBlock.apart type = true := by decide
  cases hfront with
  | modified htype => exact h.refuses_of_apart rfl rfl (hmodifier _ htype)
  | named hname hsecond =>
      refine Refuses.rule (h.refuses_past_gap (.inr (.inl ⟨rfl, hname⟩)) rfl fun rest hrest => ?_)
      exact (hrest.refuses_at (hargBlock _ hsecond)).seq
  | withArgs hname hargs hthird =>
      refine Refuses.rule (h.refuses_past_gap (.inr (.inl ⟨rfl, hname⟩)) rfl fun rest hrest => ?_)
      refine hrest.refuses_past_gap (.inl hargs.symm) rfl fun rest hrest => ?_
      exact (hrest.refuses_at (hactionBlock _ hthird)).seq

theorem Lexed.refuses_finallyClause (h : Lexed enters last (lexeme :: lexemes) chars)
    (hfront : Fronted (lexeme :: lexemes)) : Refuses (.rule .finallyClause) chars := by
  have hmodifier : ∀ type ∈ modifiers.map Terminal.keyword,
      ((Rule.expr .finallyClause).heads (Rule.heads 6)).all (·.apart type) = true := by decide
  have hactionBlock : ∀ type ∈ .argBlock :: .mark .bang :: headTypes,
      Terminal.actionBlock.apart type = true := by decide
  rcases hfront.cases with htype | ⟨hname, second, more, rfl, hsecond⟩
  · exact h.refuses_of_apart rfl rfl (hmodifier _ htype)
  · refine Refuses.rule (h.refuses_past_gap (.inr (.inl ⟨rfl, hname⟩)) rfl fun rest hrest => ?_)
    exact (hrest.refuses_at (hactionBlock _ hsecond)).seq

theorem Lexed.refuses_closers (h : Lexed enters last (lexeme :: lexemes) chars)
    (hfront : Fronted (lexeme :: lexemes)) : ∀ expr ∈ closers, Refuses expr chars := by
  have hcatch := h.refuses_catchClause hfront
  have hfinally := h.refuses_finallyClause hfront
  have hgroup : Refuses (.rule .exceptionGroup) chars :=
    .rule (.choice (.seq (.many1 hcatch)) hfinally)
  simpa [closers, Rule.expr] using ⟨hgroup, hcatch, hfinally⟩

theorem refuses_closers_nil : ∀ expr ∈ closers, Refuses expr [] := by
  have hnullable : ∀ expr ∈ closers, expr.nullable = false := by decide
  exact fun expr hexpr => refuses_nil (hnullable expr hexpr)

/-! ## Rules that read as a scope -/

def scopeName : Lexeme := ⟨.identifier, Keyword.scope.text.toList⟩

/-- A rule named as the keyword of scopes, which a keyword and a block follow. -/
inductive Scoped : List Lexeme → Prop where
  | options {second : Lexeme} {lexemes : List Lexeme} (hsecond : second.type = .keyword .options) :
      Scoped (scopeName :: second :: lexemes)
  | scope {second third : Lexeme} {lexemes : List Lexeme} (hsecond : second.type = .keyword .scope)
      (hthird : third.type = .actionBlock) : Scoped (scopeName :: second :: third :: lexemes)

def headKeywords : List Keyword :=
  [.returns, .throws, .options, .scope]

theorem second_cases {type : Terminal} (h : type ∈ .argBlock :: .mark .bang :: headTypes) :
    (∃ word ∈ headKeywords, type = .keyword word) ∨ Terminal.identifier.apart type = true := by
  revert type
  decide

theorem Lexed.exists_next (h : Lexed enters last (lexeme :: lexemes) chars) {word : Keyword}
    (hword : word ∈ headKeywords) (htype : lexeme.type = .keyword word) :
    ∃ next more, lexemes = next :: more ∧
      ∃ types ∈ (Terminal.keyword word).nexts, next.type ∈ types := by
  have hnexts : ∀ word ∈ headKeywords, (Terminal.keyword word).nexts ≠ none := by decide
  obtain ⟨types, htypes⟩ := Option.ne_none_iff_exists'.1 (hnexts word hword)
  cases h with
  | @cons type _ _ _ _ hnext _ _ =>
      obtain rfl : type = .keyword word := htype
      obtain ⟨next, hnext, hmem⟩ := hnext types htypes
      obtain ⟨more, rfl⟩ := List.head?_eq_some_iff.1 hnext
      exact ⟨next, more, rfl, types, htypes, hmem⟩

section Named

variable {second : Lexeme} {more : List Lexeme}

theorem Lexed.refuses_importSpec (h : Lexed enters last (lexeme :: second :: more) chars)
    (hname : lexeme.type = .identifier)
    (hsecond : second.type ∈ .argBlock :: .mark .bang :: headTypes) :
    Refuses (.rule .importSpec) chars := by
  have hthird : ∀ word ∈ headKeywords, ∀ types ∈ (Terminal.keyword word).nexts, ∀ type ∈ types,
      [Terminal.mark .assign, .mark .comma, .mark .semicolon].all (·.apart type) = true := by decide
  refine Refuses.rule (h.refuses_past_gap (.inr (.inl ⟨rfl, hname⟩)) rfl fun rest hrest => ?_)
  rcases second_cases hsecond with ⟨word, hword, htype⟩ | hapart
  · obtain ⟨third, more, rfl, types, htypes, hmem⟩ := hrest.exists_next hword htype
    refine (refuses_seq_rule rfl).2 (refuses_seq_assoc.2 ?_)
    refine hrest.refuses_past (.inr (.inr ⟨rfl, by rw [htype]; rfl⟩)) rfl fun rest hrest' => ?_
    refine refuses_seq_assoc.2 ((refuses_seq_gap rfl).2 ?_)
    exact hrest'.refuses_of_apart rfl rfl (hthird word hword types htypes _ hmem)
  · have hdelegate : Refuses (.rule .delegate) rest := Refuses.rule (hrest.refuses_at hapart).seq
    exact hdelegate.seq

theorem Lexed.refuses_grammarScope (h : Lexed enters last (lexeme :: second :: more) chars)
    (hname : lexeme.type = .identifier)
    (hsecond : second.type ∈ .argBlock :: .mark .bang :: headTypes)
    (hscoped : ¬Scoped (lexeme :: second :: more)) : Refuses (.rule .grammarScope) chars := by
  by_cases hscope : lexeme = scopeName
  · have hthird : ∀ word ∈ headKeywords, word ≠ .options → 
        ∀ types ∈ (Terminal.keyword word).nexts, ∀ type ∈ types,
        (word = .scope → type ≠ .actionBlock) → Terminal.actionBlock.apart type = true := by decide
    refine Refuses.rule (h.refuses_past_gap (.inr (.inl ⟨rfl, hname⟩)) rfl fun rest hrest => ?_)
    rcases second_cases hsecond with ⟨word, hword, htype⟩ | hapart
    · obtain ⟨third, more, rfl, types, htypes, hmem⟩ := hrest.exists_next hword htype
      refine hrest.refuses_past_gap (.inr (.inr ⟨rfl, by rw [htype]; rfl⟩)) rfl
        fun rest hrest' => ?_
      refine (hrest'.refuses_at (hthird word hword ?_ types htypes _ hmem ?_)).seq
      · rintro rfl
        exact hscoped (hscope ▸ .options htype)
      · rintro rfl hblock
        exact hscoped (hscope ▸ .scope htype hblock)
    · exact (hrest.refuses_at hapart).seq
  · cases h with
    | @cons type name rest _ hafter hnext _ hmore =>
        obtain ⟨hword, hstops⟩ := Lexed.name hafter hnext hmore (.inl hname)
        refine Refuses.rule (refuses_keyword hword (fun hsame => hscope ?_) hstops).seq
        rw [scopeName, ← hname, ← hsame]

theorem Lexed.refuses_prequel (h : Lexed enters last lexemes chars) (hfront : Fronted lexemes)
    (hlast : lexemes = [] → chars = []) (hscoped : ¬Scoped lexemes) :
    Refuses (.rule .prequel) chars := by
  have hmodifier : ∀ type ∈ modifiers.map Terminal.keyword,
      ((Rule.expr .prequel).heads (Rule.heads 6)).all (·.apart type) = true := by decide
  have hbrace : ∀ type ∈ .argBlock :: .mark .bang :: headTypes,
      Terminal.apart (.mark .leftBrace) type = true := by decide
  cases lexemes with
  | nil => exact hlast rfl ▸ refuses_nil rfl
  | cons lexeme lexemes =>
      rcases hfront.cases with htype | ⟨hname, second, more, rfl, hsecond⟩
      · exact h.refuses_of_apart rfl rfl (hmodifier _ htype)
      · have hsection {word : Keyword} {more : Expr} (hvisible : more.visible = true) :
            Refuses (.seq word.expr (.seq gap (.seq (Mark.expr .leftBrace) more))) chars := by
          refine h.refuses_past_gap (.inr (.inl ⟨rfl, hname⟩))
            (by simp [Expr.visible, hvisible, Mark.expr, Rule.embedded]) fun rest hrest => ?_
          exact (hrest.refuses_at (hbrace _ hsecond)).seq
        have haction : Refuses (.rule .actionSpec) chars := 
          Refuses.rule (h.refuses_at (by rw [hname]; decide)).seq
        exact Refuses.rule (.choice (Refuses.rule (hsection rfl))
          (.choice (h.refuses_importSpec hname hsecond)
            (.choice (Refuses.rule (hsection rfl))
              (.choice (h.refuses_grammarScope hname hsecond hscoped) haction))))

end Named

theorem not_refuses_grammarScope {rest after : List Char}
    (hscope : (Terminal.keyword .scope).after? chars = some rest)
    (hname : Terminal.identifier.after? (afterTrivia rest) = some after)
    (hblock : Terminal.actionBlock.after? (afterTrivia after) ≠ none) :
    ¬Refuses (.rule .grammarScope) chars := by
  intro h
  rw [refuses_rule] at h
  have hrest := (refuses_seq_gap rfl).1 ((refuses_seq_token rfl).1 h rest hscope)
  have hafter := (refuses_seq_gap rfl).1 ((refuses_seq_token rfl).1 hrest after hname)
  exact hblock (refuses_token.1 (refuses_before_gap.1 hafter))

theorem Lexed.past_keyword (h : Lexed enters last (lexeme :: lexemes) chars) {word : Keyword}
    (htype : lexeme.type = .keyword word) :
    ∃ rest, (Terminal.keyword word).after? chars = some rest ∧
      Terminal.identifier.after? chars = some rest ∧ enters (.keyword word) chars ∧
      Lexed enters last lexemes (afterTrivia rest) := by
  cases h with
  | @cons type _ rest _ hafter hnext henters hmore =>
      obtain rfl : type = .keyword word := htype
      obtain ⟨hname, hstops⟩ := Lexed.name hafter hnext hmore (.inr rfl)
      exact ⟨rest, hafter, Terminal.after?_identifier hname hstops, henters, hmore⟩

theorem Lexed.past_scopeName (h : Lexed enters last (scopeName :: lexemes) chars) :
    ∃ rest, (Terminal.keyword .scope).after? chars = some rest ∧
      Lexed enters last lexemes (afterTrivia rest) := by
  cases h with
  | @cons _ _ rest _ hafter hnext _ hmore =>
      obtain ⟨hname, hstops⟩ := Lexed.name hafter hnext hmore (.inl rfl)
      exact ⟨rest, by rw [Terminal.after?_keyword .scope hname hstops, if_pos rfl], hmore⟩

theorem Lexed.not_scoped (h : Lexed Enters last lexemes chars)
    (hrefuses : Refuses (.rule .prequel) chars) : ¬Scoped lexemes := by
  obtain ⟨-, hrefuses⟩ := refuses_choice.1 (refuses_rule.1 hrefuses)
  obtain ⟨-, hrefuses⟩ := refuses_choice.1 hrefuses
  obtain ⟨-, hrefuses⟩ := refuses_choice.1 hrefuses
  obtain ⟨hrefuses, -⟩ := refuses_choice.1 hrefuses
  intro hscoped
  cases hscoped with
  | options hsecond =>
      obtain ⟨rest, hscope, hrest⟩ := h.past_scopeName
      obtain ⟨after, hkeyword, hname, henters, -⟩ := hrest.past_keyword hsecond
      refine not_refuses_grammarScope hscope hname (fun hnone => ?_) hrefuses
      have htail : Refuses optionsTail (afterTrivia after) := by
        refine refuses_iff.2 fun offset trees next hyields => ?_
        obtain ⟨found, hfound, -⟩ := optionsTail_block hyields
        rw [hnone] at hfound
        cases hfound
      refine henters .optionsSpec rfl (Refuses.rule ?_)
      refine (refuses_seq_token rfl).2 fun found hfound => ?_
      rw [hkeyword] at hfound
      exact Option.some.inj hfound ▸ (refuses_seq_gap rfl).2 htail
  | scope hsecond hthird =>
      obtain ⟨rest, hscope, hrest⟩ := h.past_scopeName
      obtain ⟨after, -, hname, -, hmore⟩ := hrest.past_keyword hsecond
      refine not_refuses_grammarScope hscope hname ?_ hrefuses
      generalize afterTrivia after = block at hmore
      cases hmore with
      | @cons type _ _ _ hafter _ _ _ =>
          obtain rfl : type = .actionBlock := hthird
          simp [hafter]

end Refusals

end GrammarLint.Grammar
