import GrammarLint.Proofs.Lookahead

/-!
# Texts with the same lexemes

Two texts are `Lined` up if they have the same lexemes, and what fails on the first for
the sake of a token or of a block fails on the second.  What is read from the first is
then read from the second: attempts that fail are told by the lexemes in front.
-/

namespace GrammarLint.Grammar

open Text

section Lined

variable (fits : List Char → List Char → Prop) (last final : List Char)

/-- Two texts with the same lexemes, up to the texts `last` and `final`; `fits` holds of the
texts where a lexeme stands. -/
inductive Lined : List Lexeme → (first second : List Char) → Prop where
  | nil : Lined [] last final
  | cons {type : Terminal} {chars rest after : List Char} {lexemes : List Lexeme}
      (hfirst : type.after? (chars ++ rest) = some rest)
      (hsecond : type.after? (chars ++ after) = some after) (hnext : type.Precedes lexemes)
      (henters : Enters type (chars ++ rest))
      (hmarks : ∀ sign, (Terminal.mark sign).after? (chars ++ rest) = none →
        (Terminal.mark sign).after? (chars ++ after) = none)
      (hblock : type = .actionBlock → Refuses optionsColon (chars ++ rest) →
        Refuses optionsColon (chars ++ after))
      (hfits : fits (chars ++ rest) (chars ++ after))
      (hmore : Lined lexemes (afterTrivia rest) (afterTrivia after)) :
      Lined (⟨type, chars⟩ :: lexemes) (chars ++ rest) (chars ++ after)

end Lined

namespace Lined

variable {fits : List Char → List Char → Prop} {last final first second : List Char}
  {lexeme : Lexeme} {lexemes : List Lexeme}

theorem lexed_first (h : Lined fits last final lexemes first second) :
    Lexed Enters last lexemes first := by
  induction h with
  | nil => exact .nil
  | cons hfirst _ hnext henters _ _ _ _ ih => exact .cons hfirst hnext henters ih

theorem lexed_second (h : Lined fits last final lexemes first second) :
    Lexed (fun _ _ => True) final lexemes second := by
  induction h with
  | nil => exact .nil
  | cons _ hsecond hnext _ _ _ _ _ ih => exact .cons hsecond hnext trivial ih

theorem uncons (h : Lined fits last final (lexeme :: lexemes) first second) :
    ∃ rest after, first = lexeme.chars ++ rest ∧ second = lexeme.chars ++ after ∧
      lexeme.type.after? second = some after ∧ fits first second ∧
      Lined fits last final lexemes (afterTrivia rest) (afterTrivia after) := by
  cases h with
  | cons _ hsecond _ _ _ _ hfits hmore => exact ⟨_, _, rfl, rfl, hsecond, hfits, hmore⟩

theorem marks (h : Lined fits last final (lexeme :: lexemes) first second) {sign : Mark}
    (hnone : (Terminal.mark sign).after? first = none) :
    (Terminal.mark sign).after? second = none := by
  cases h with
  | cons _ _ _ _ hmarks _ _ _ => exact hmarks sign hnone

theorem block (h : Lined fits last final (lexeme :: lexemes) first second)
    (htype : lexeme.type = .actionBlock) (hrefuses : Refuses optionsColon first) :
    Refuses optionsColon second := by
  cases h with
  | cons _ _ _ _ _ hblock _ _ => exact hblock htype hrefuses

theorem enters (h : Lined fits last final (lexeme :: lexemes) first second) :
    Enters lexeme.type first := by
  cases h with
  | cons _ _ _ henters _ _ _ _ => exact henters

/-! ## Failures that carry over -/

theorem refuses_ruleModifier (h : Lined fits last final (lexeme :: lexemes) first second)
    (htype : lexeme.type = .identifier) (hrefuses : Refuses (.rule .ruleModifier) first) :
    Refuses (.rule .ruleModifier) second := by
  cases h with
  | cons hfirst hsecond hnext _ _ _ _ hmore =>
      obtain ⟨hname, hstops⟩ := Lexed.name hfirst hnext hmore.lexed_first (.inl htype)
      obtain ⟨-, hstops'⟩ := Lexed.name hsecond hnext hmore.lexed_second (.inl htype)
      rw [refuses_ruleModifier_iff hname hstops] at hrefuses
      exact (refuses_ruleModifier_iff hname hstops').2 hrefuses

theorem refuses_actionScope (h : Lined fits last final (lexeme :: lexemes) first second)
    (htype : lexeme.type = .identifier) (hrefuses : Refuses actionScope first) :
    Refuses actionScope second := by
  rw [refuses_actionScope_iff] at hrefuses ⊢
  intro found hfound
  cases h with
  | cons hfirst hsecond hnext _ _ _ _ hmore =>
      cases htype
      rw [hsecond] at hfound
      cases hfound
      obtain ⟨next, hnext, -⟩ := hnext _ rfl
      obtain ⟨more, rfl⟩ := List.head?_eq_some_iff.1 hnext
      exact hmore.marks (hrefuses _ hfirst)

theorem refuses_subruleOptions (h : Lined fits last final (lexeme :: lexemes) first second)
    (htype : lexeme.type = .identifier) (hrefuses : Refuses (.rule .subruleOptions) first) :
    Refuses (.rule .subruleOptions) second := by
  rw [refuses_subruleOptions_iff] at hrefuses ⊢
  intro found hfound
  cases h with
  | cons hfirst hsecond hnext _ _ _ _ hmore =>
      obtain ⟨hname, hstops⟩ := Lexed.name hfirst hnext hmore.lexed_first (.inl htype)
      obtain ⟨-, hstops'⟩ := Lexed.name hsecond hnext hmore.lexed_second (.inl htype)
      cases htype
      rw [Terminal.after?_keyword .options hname hstops', Option.ite_none_right_eq_some] at hfound
      obtain ⟨hword, hfound⟩ := hfound
      cases hfound
      have hrest := hrefuses _ (by rw [Terminal.after?_keyword .options hname hstops, if_pos hword])
      obtain ⟨next, hnext, htype⟩ := hnext _ rfl
      obtain ⟨more, rfl⟩ := List.head?_eq_some_iff.1 hnext
      by_cases hblock : next.type = .actionBlock
      · exact hmore.block hblock hrest
      · have hbrace : next.type ≠ .mark .leftBrace := by
          intro hbrace
          rw [hbrace] at htype
          exact absurd htype (by decide)
        have hother : ∀ type ∈ Terminal.all, type ≠ .actionBlock → type ≠ .mark .leftBrace →
            (optionsColon.heads (Rule.heads 6)).all (·.apart type) = true := by decide
        exact hmore.lexed_second.refuses_of_apart
          (by decide : optionsColon.turn true = some true) rfl
          (hother _ next.type.mem_all hblock hbrace)

/-- A parenthesis right after a caret is read as a subrule, and then so are both together. -/
theorem refuses_subrule (h : Lined fits last final (lexeme :: lexemes) first second)
    (htype : lexeme.type = .mark .caret) (hrefuses : Refuses (.rule .subrule) first) :
    Refuses (.rule .subrule) second := by
  have hbegin : (Terminal.mark .treeBegin).after? first = none := by
    rw [refuses_subrule_iff] at hrefuses
    by_contra hsome
    obtain ⟨rest, hrest⟩ := Option.ne_none_iff_exists'.1 hsome
    have htail := hrefuses _ List.mem_cons_self _ hrest
    cases h with
    | cons hfirst _ hnext _ _ _ _ hmore =>
        cases htype
        have hchars := (Terminal.after?_mark.1 hfirst).symm.trans (Terminal.after?_mark.1 hrest)
        obtain rfl := (List.cons.inj hchars).2
        have hsolid : afterTrivia ('(' :: rest) = '(' :: rest :=
          congrArg Prod.snd (scanTrivia_eq_nil_of_solid rest (by decide) (by decide))
        obtain ⟨next, hnext, -⟩ := hnext _ rfl
        obtain ⟨more, rfl⟩ := List.head?_eq_some_iff.1 hnext
        change Lined fits last final _ (afterTrivia ('(' :: rest)) _ at hmore
        rw [hsolid] at hmore
        obtain ⟨c, others, hfront, hclass⟩ := hmore.lexed_first.front
        obtain ⟨rfl, -⟩ := List.cons.inj hfront
        have hparen : ∀ type ∈ Terminal.all, classOf '(' = type.group →
            type = .mark .leftParen := by decide
        refine hmore.enters .subrule (by rw [hparen _ next.type.mem_all hclass]; rfl)
          (refuses_subrule_iff.2 ?_)
        intro sign hsign found hfound
        simp only [List.mem_cons, List.not_mem_nil, or_false] at hsign
        rw [Terminal.after?_mark] at hfound
        rcases hsign with rfl | rfl
        · exact absurd (List.cons.inj hfound).1 (by decide)
        · obtain ⟨-, rfl⟩ := List.cons.inj hfound
          exact htail
  rw [refuses_subrule_iff]
  intro sign hsign rest hrest
  simp only [List.mem_cons, List.not_mem_nil, or_false] at hsign
  rcases hsign with rfl | rfl
  · rw [h.marks hbegin] at hrest
    cases hrest
  · cases h with
    | cons _ hsecond _ _ _ _ _ _ =>
        cases htype
        rw [Terminal.after?_of_apart hsecond (by decide)] at hrest
        cases hrest

theorem refuses_of_failsAt (h : Lined fits last final (lexeme :: lexemes) first second)
    {expr : Expr} {after : Bool} (hturn : expr.turn true = some after)
    (hnullable : expr.nullable = false) (hfails : expr.failsAt lexeme.type = true)
    (hrefuses : Refuses expr first) : Refuses expr second := by
  simp only [Expr.failsAt, Bool.or_eq_true, List.contains_iff_mem] at hfails
  rcases hfails with (hapart | hmark) | hdeeper
  · exact h.lexed_second.refuses_of_apart hturn hnullable hapart
  · unfold Expr.isMark at hmark
    split at hmark
    · rw [refuses_token] at hrefuses ⊢
      exact h.marks hrefuses
    · cases hmark
  · simp only [deeper, List.mem_cons, List.not_mem_nil, or_false, Prod.mk.injEq] at hdeeper
    rcases hdeeper with ⟨rfl, htype⟩ | ⟨rfl, htype⟩ | ⟨rfl, htype⟩ | ⟨rfl, htype⟩
    · exact h.refuses_ruleModifier htype hrefuses
    · exact h.refuses_subrule htype hrefuses
    · exact h.refuses_subruleOptions htype hrefuses
    · exact h.refuses_actionScope htype hrefuses

def Closes (fits : List Char → List Char → Prop) (last final : List Char)
    (stop : List Lexeme → Prop) : Prop :=
  ∀ lexemes first second, Lined fits last final lexemes first second → stop lexemes →
    ∀ expr ∈ closers, Refuses expr second

theorem refuses_of_failsBefore {stop : List Lexeme → Prop} (hstop : Closes fits last final stop)
    (h : Lined fits last final lexemes first second) {expr : Expr} {after : Bool}
    {follow : Follow} (hturn : expr.turn true = some after) (hnullable : expr.nullable = false)
    (hfails : expr.failsBefore follow = true) (hmeets : follow.Meets stop lexemes)
    (hrefuses : Refuses expr first) : Refuses expr second := by
  cases follow with
  | any => cases hfails
  | next types ends =>
      simp only [Expr.failsBefore, Bool.and_eq_true, List.all_eq_true, Bool.or_eq_true,
        Bool.not_eq_true', List.contains_iff_mem] at hfails
      rcases hmeets with ⟨lexeme, hlexeme, htype⟩ | ⟨rfl, hends⟩
      · obtain ⟨more, rfl⟩ := List.head?_eq_some_iff.1 hlexeme
        exact h.refuses_of_failsAt hturn hnullable (hfails.1 _ htype) hrefuses
      · exact hstop _ _ _ h hends expr (hfails.2.resolve_left nofun)

end Lined

/-! ## The same match -/

structure Aligned (length other : Nat) (cursor later : Cursor) : Prop where
  first : cursor.offset + cursor.rest.length = length
  second : later.offset + later.rest.length = other

theorem Aligned.moves {length other : Nat} {cursor later next after : Cursor}
    {taken found : List Char} (h : Aligned length other cursor later)
    (hfirst : Moves cursor taken next) (hsecond : Moves later found after) :
    Aligned length other next after := by
  have := hfirst.offset_eq
  have := hfirst.length_eq
  have := hsecond.offset_eq
  have := hsecond.length_eq
  have := h.first
  have := h.second
  constructor <;> omega

def Located (fits : List Char → List Char → Prop) (length other offset place : Nat) : Prop :=
  ∃ first second, fits first second ∧ offset + first.length = length ∧
    place + second.length = other

section Retelling

variable {fits : List Char → List Char → Prop} {last final : List Char} {length size : Nat}

/-- A match of the second text: similar trees, up to a place that is lined up with that of
the first. -/
def Retells (fits : List Char → List Char → Prop) (last final : List Char) (length size : Nat)
    (expr : Expr) (other : Cursor) (trees : List Tree) (next : Cursor) (after : Bool)
    (lexemes : List Lexeme) : Prop :=
  ∃ others later, Yields expr other (some (others, later)) ∧
    Similar (Located fits length size) Eq trees others ∧
    Lined fits last final lexemes (settled after next.rest) (settled after later.rest) ∧
    Aligned length size next later

theorem retells_optional {stop : List Lexeme → Prop} (hstop : Lined.Closes fits last final stop)
    {body : Expr} {cursor other : Cursor} {ready after : Bool} {follow : Follow}
    {lexemes : List Lexeme} (hturn : (Expr.optional body).turn ready = some after)
    (hcheck : (Expr.optional body).check follow = true) (hmeets : follow.Meets stop lexemes)
    (hlined : Lined fits last final lexemes (settled ready cursor.rest) (settled ready other.rest))
    (haligned : Aligned length size cursor other) (hrefuses : Refuses body cursor.rest) :
    Retells fits last final length size (.optional body) other [] cursor after lexemes := by
  obtain ⟨rfl, rfl, hbody⟩ := Expr.turn_optional hturn
  obtain ⟨-, hfails, hnullable⟩ := Expr.check_optional hcheck
  have hsecond := hlined.refuses_of_failsBefore hstop hbody hnullable hfails hmeets hrefuses
  exact ⟨[], other, yields_optional_of_refuses hsecond, .nil, hlined, haligned⟩

theorem retells_many {stop : List Lexeme → Prop} (hstop : Lined.Closes fits last final stop)
    {body : Expr} {cursor other : Cursor} {ready after : Bool} {follow : Follow}
    {lexemes : List Lexeme} (hturn : (Expr.many body).turn ready = some after)
    (hcheck : (Expr.many body).check follow = true) (hmeets : follow.Meets stop lexemes)
    (hlined : Lined fits last final lexemes (settled ready cursor.rest) (settled ready other.rest))
    (haligned : Aligned length size cursor other) (hrefuses : Refuses body cursor.rest) :
    Retells fits last final length size (.many body) other [] cursor after lexemes := by
  obtain ⟨rfl, rfl, hbody⟩ := Expr.turn_many hturn
  obtain ⟨-, hfails, hnullable, -⟩ := Expr.check_many hcheck
  have hsecond := hlined.refuses_of_failsBefore hstop hbody hnullable hfails hmeets hrefuses
  exact ⟨[], other, yields_many_of_refuses hsecond, .nil, hlined, haligned⟩

theorem Yields.rest_ne_nil {expr : Expr} {cursor next : Cursor} {trees : List Tree}
    (h : Yields expr cursor (some (trees, next))) (hnullable : expr.nullable = false) :
    cursor.rest ≠ [] :=
  fun hnil => h.not_refuses (hnil ▸ refuses_nil hnullable)

theorem Yields.retold {stop : List Lexeme → Prop} (hstop : Lined.Closes fits last final stop)
    {expr : Expr} {cursor next other : Cursor} {trees : List Tree}
    (h : Yields expr cursor (some (trees, next))) {ready after : Bool} {follow : Follow}
    {lexemes : List Lexeme} (hturn : expr.turn ready = some after)
    (hcheck : expr.check follow = true) (hmeets : follow.Meets stop lexemes)
    (hlined : Lined fits last final (Tree.allLexemes trees ++ lexemes)
      (settled ready cursor.rest) (settled ready other.rest))
    (haligned : Aligned length size cursor other) :
    Retells fits last final length size expr other trees next after lexemes := by
  generalize hresult : some (trees, next) = result at h
  induction h generalizing trees next other ready after follow lexemes with
  | literal | pattern => cases hturn
  | @rule rule cursor next children hbody ih =>
      cases hresult
      rcases Rule.turn_cases hturn with ⟨type, rfl, rfl, rfl⟩ | ⟨rfl, rfl, rfl⟩ |
        ⟨hgrouping, hinner⟩
      · rw [Tree.allLexemes_terminal] at hlined
        rw [Rule.body_terminal] at hbody
        obtain ⟨offset, text⟩ := other
        obtain ⟨rest, after, hchars, htext, hafter, hfits, hmore⟩ := hlined.uncons
        simp only [settled, if_pos] at hchars htext hafter hfits
        have hrest : rest = next.rest :=
          List.append_cancel_left (hchars.symm.trans hbody.moves.rest_eq)
        subst htext hrest
        obtain ⟨others, hyields, hothers⟩ := Terminal.exists_yields hafter offset
        refine ⟨_, ⟨_, after⟩, .rule (by rwa [Rule.body_terminal]), .terminal ?_ hothers.symm,
          hmore, haligned.moves hbody.moves hyields.moves⟩
        exact ⟨_, _, hfits, haligned.first, haligned.second⟩
      · rw [Tree.allLexemes_trivia] at hlined
        obtain ⟨others, later, hyields, hrest⟩ := exists_yields_trivia other
        refine ⟨_, later, .rule hyields, .trivia _ _ _ _, ?_,
          haligned.moves hbody.moves hyields.moves⟩
        simpa [settled, hrest, afterTrivia_of_yields hbody] using hlined
      · rw [Tree.allLexemes_group hgrouping] at hlined
        have hne : rule ≠ .grammarFile := by
          rintro rfl
          cases hturn
        obtain ⟨others, later, hyields, hsimilar, hmore⟩ := ih hinner
          (Rule.check_body hgrouping hne) (hmeets.mono (Expr.check_rule hcheck hgrouping))
          hlined haligned rfl
        exact ⟨_, later, .rule hyields, .group _ _ hgrouping hsimilar, hmore⟩
  | seq hfirst hsecond ihFirst ihSecond =>
      cases hresult
      obtain ⟨between, hturnFirst, hturnSecond⟩ := Expr.turn_seq hturn
      obtain ⟨hcheckFirst, hcheckSecond, -⟩ := Expr.check_seq hcheck
      rw [Tree.allLexemes_append, List.append_assoc] at hlined
      obtain ⟨others, middle, hyields, hsimilar, hmore, haligned⟩ := ihFirst hturnFirst hcheckFirst
        (hmeets.before (hsecond.opens hturnSecond 6)) hlined haligned rfl
      obtain ⟨found, later, hyields', hsimilar', hmore⟩ := ihSecond hturnSecond hcheckSecond hmeets
        hmore haligned rfl
      exact ⟨_, later, .seq hyields hyields', .append hsimilar hsimilar', hmore⟩
  | first _ ih =>
      obtain ⟨rfl, hfirst, -⟩ := Expr.turn_choice hturn
      obtain ⟨others, later, hyields, hmore⟩ := ih hfirst (Expr.check_choice hcheck).1 hmeets
        hlined haligned hresult
      exact ⟨others, later, .first hyields, hmore⟩
  -- The second text must refuse the first alternative too, or it would be read another way.
  | second hnone hsecond _ ih =>
      subst hresult
      obtain ⟨rfl, hfirst, hturnSecond⟩ := Expr.turn_choice hturn
      obtain ⟨-, hcheckSecond, hfails, hnullable⟩ := Expr.check_choice hcheck
      have hrefuses := hlined.refuses_of_failsBefore hstop hfirst hnullable hfails
        (hmeets.before (hsecond.opens hturnSecond 6))
        (hnone.refuses (Expr.visible_of_turn hfirst))
      obtain ⟨others, later, hyields, hmore⟩ := ih hturnSecond hcheckSecond hmeets hlined haligned
        rfl
      exact ⟨others, later, .second (hrefuses other.offset) hyields, hmore⟩
  | optionalAtEnd hend =>
      cases hresult
      exact retells_optional hstop hturn hcheck hmeets hlined haligned
        (hend ▸ refuses_nil (Expr.check_optional hcheck).2.2)
  | optionalNone _ hnone =>
      cases hresult
      exact retells_optional hstop hturn hcheck hmeets hlined haligned
        (hnone.refuses (Expr.visible_of_turn (Expr.turn_optional hturn).2.2))
  | optionalSome _ hbody ih =>
      obtain ⟨rfl, rfl, hturnBody⟩ := Expr.turn_optional hturn
      obtain ⟨hcheckBody, -, hnullable⟩ := Expr.check_optional hcheck
      obtain ⟨others, later, hyields, hmore⟩ := ih hturnBody hcheckBody hmeets hlined haligned
        hresult
      exact ⟨others, later, .optionalSome (hyields.rest_ne_nil hnullable) hyields, hmore⟩
  | manyAtEnd hend =>
      cases hresult
      exact retells_many hstop hturn hcheck hmeets hlined haligned
        (hend ▸ refuses_nil (Expr.check_many hcheck).2.2.1)
  | manyNone _ hnone =>
      cases hresult
      exact retells_many hstop hturn hcheck hmeets hlined haligned
        (hnone.refuses (Expr.visible_of_turn (Expr.turn_many hturn).2.2))
  | manyLast _ hbody hstuck => exact absurd hstuck (hbody.offset_ne (Expr.check_many hcheck).2.2.1)
  | manyMore _ hbody hstuck hmore ihBody ihMore =>
      cases hresult
      obtain ⟨rfl, rfl, hturnBody⟩ := Expr.turn_many hturn
      obtain ⟨hcheckBody, -, hnullable, -⟩ := Expr.check_many hcheck
      rw [Tree.allLexemes_append, List.append_assoc] at hlined
      obtain ⟨others, middle, hyields, hsimilar, hlater, haligned⟩ := ihBody hturnBody hcheckBody
        (hmeets.before (hmore.opens hturn 6)) hlined haligned rfl
      obtain ⟨found, later, hyields', hsimilar', hlater⟩ := ihMore hturn hcheck hmeets hlater
        haligned rfl
      exact ⟨_, later, .manyMore (hyields.rest_ne_nil hnullable) hyields
        (hyields.offset_ne hnullable) hyields', .append hsimilar hsimilar', hlater⟩
  | many1Some hend hbody hall ihBody ihAll =>
      cases hresult
      obtain ⟨rfl, rfl, hturnBody⟩ := Expr.turn_many1 hturn
      obtain ⟨hcheckBody, -, hnullable, -⟩ := Expr.check_many hcheck
      obtain ⟨others, later, hyields, hmore⟩ := ihAll hturn hcheck hmeets hlined haligned rfl
      obtain ⟨one, middle, hone⟩ : ∃ one middle, Yields _ other (some (one, middle)) := by
        cases hall with
        | manyAtEnd hend' => exact absurd hend' hend
        | manyNone _ hnone => cases hnone.unique hbody
        | manyLast _ hbody' hstuck => exact absurd hstuck (hbody'.offset_ne hnullable)
        | manyMore _ hbody' _ hrest =>
            cases hbody.unique hbody'
            rw [Tree.allLexemes_append, List.append_assoc] at hlined
            obtain ⟨one, middle, hone, -⟩ := ihBody hturnBody hcheckBody
              (hmeets.before (hrest.opens hturn 6)) hlined haligned rfl
            exact ⟨one, middle, hone⟩
      exact ⟨others, later, .many1Some (hone.rest_ne_nil hnullable) hone hyields, hmore⟩
  | noLiteral | noPattern | noRule | noFirst | noSecond | many1AtEnd | many1None => cases hresult

end Retelling

end GrammarLint.Grammar
