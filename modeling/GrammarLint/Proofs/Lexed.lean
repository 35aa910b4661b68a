import GrammarLint.Proofs.Heads

/-!
# Texts taken apart into lexemes

What may follow a match is a `Follow`.  The grammar is checked once, rule by rule: an
attempt that fails is told by the next lexeme, but for a few that look further, and some
tokens are followed by certain others only.  A match takes its text apart into lexemes,
each of which is found at the front of what is left of the text.
-/

namespace GrammarLint.Grammar

open Text

/-! ## What follows -/

inductive Follow where
  | any
  | next (types : List Terminal) (ends : Bool)
  deriving DecidableEq, Repr

namespace Follow

def before (follow : Follow) (expr : Expr) : Follow :=
  let heads := expr.heads (Rule.heads 6)
  if expr.nullable then
    match follow with
    | .any => .any
    | .next types ends => .next (heads ++ types) ends
  else .next heads false

def le : Follow → Follow → Bool
  | _, .any => true
  | .any, .next _ _ => false
  | .next types ends, .next others final => types.all others.contains && (!ends || final)

def Meets (stop : List Lexeme → Prop) : Follow → List Lexeme → Prop
  | .any, _ => True
  | .next types ends, lexemes =>
      (∃ lexeme ∈ lexemes.head?, lexeme.type ∈ types) ∨ ends = true ∧ stop lexemes

variable {stop : List Lexeme → Prop}

theorem Meets.mono {follow other : Follow} {lexemes : List Lexeme} (hle : follow.le other = true)
    (h : Meets stop follow lexemes) : Meets stop other lexemes := by
  cases other with
  | any => trivial
  | next others final =>
      cases follow with
      | any => cases hle
      | next types ends =>
          simp only [le, Bool.and_eq_true, List.all_eq_true, List.contains_iff_mem,
            Bool.or_eq_true, Bool.not_eq_true'] at hle
          refine h.imp ?_ ?_
          · rintro ⟨lexeme, hlexeme, htype⟩
            exact ⟨lexeme, hlexeme, hle.1 _ htype⟩
          · rintro ⟨rfl, hstop⟩
            exact ⟨hle.2.resolve_left nofun, hstop⟩

theorem Meets.before {follow : Follow} {expr : Expr} {ready after : Bool} {cursor next : Cursor}
    {lexemes rest : List Lexeme} (hopens : Opens expr 6 ready after cursor next lexemes)
    (h : Meets stop follow rest) : Meets stop (follow.before expr) (lexemes ++ rest) := by
  unfold Follow.before
  cases hlexemes : lexemes with
  | nil =>
      rw [if_pos (hopens.none hlexemes).1]
      cases follow with
      | any => trivial
      | next types ends =>
          refine h.imp_left ?_
          rintro ⟨lexeme, hlexeme, htype⟩
          exact ⟨lexeme, hlexeme, List.mem_append_right _ htype⟩
  | cons lexeme lexemes =>
      have htype := (hopens.head lexeme (by simp [hlexemes])).1
      split
      · cases follow with
        | any => trivial
        | next types ends => exact .inl ⟨lexeme, rfl, List.mem_append_left _ htype⟩
      · exact .inl ⟨lexeme, rfl, htype⟩

end Follow

def Terminal.nexts : Terminal → Option (List Terminal)
  | .identifier => some (Terminal.all.erase (.mark .leftBrace))
  | .qualifiedId => some
      [.mark .comma, .mark .semicolon, .keyword .options, .keyword .scope, .mark .atSign,
        .mark .colon]
  | .keyword .returns => some [.argBlock]
  | .keyword .throws => some [.qualifiedId]
  | .keyword .options => some [.mark .leftBrace]
  | .keyword .scope => some [.actionBlock, .identifier, .mark .atSign, .mark .colon]
  | .mark .caret => some Terminal.all
  | _ => none

def Terminal.precedes (type : Terminal) (follow : Follow) : Bool :=
  match type.nexts with
  | none => true
  | some types => follow.le (.next types false)

def Rule.follow : Rule → Follow
  | .optionValue => .next [.mark .semicolon] false
  | .delegate => .next [.mark .comma, .mark .semicolon] false
  | .throwsSpec =>
      .next [.keyword .options, .keyword .scope, .mark .atSign, .mark .colon] false
  | .ruleScope => .next [.mark .atSign, .mark .colon] false
  | .altList => .next [.mark .semicolon, .mark .rightParen] false
  | .alternative => .next [.mark .bar, .mark .semicolon, .mark .rightParen] false
  | .element =>
      .next (Rule.heads 6 .element ++ [.mark .bar, .mark .semicolon, .mark .rightParen]) false
  | .atom =>
      .next (Rule.heads 6 .element ++ [.mark .bar, .mark .semicolon, .mark .rightParen]) false
  | .operator =>
      .next (Rule.heads 6 .element ++ [.mark .bar, .mark .semicolon, .mark .rightParen]) false
  | .ruleSpec => .next [] true
  | .exceptionGroup => .next [] true
  | _ => .any

/-! ## The check of the grammar -/

def actionScope : Expr :=
  .inOrder identifier [gap, Mark.expr .doubleColon, gap]

def deeper : List (Expr × Terminal) := [
  (Rule.expr .ruleModifier, .identifier),
  (Rule.expr .subrule, .mark .caret),
  (Rule.expr .subruleOptions, .identifier),
  (actionScope, .identifier)]

def closers : List Expr :=
  [Rule.expr .exceptionGroup, Rule.expr .catchClause, Rule.expr .finallyClause]

def Expr.isMark : Expr → Bool
  | .rule (.terminal (.mark _)) => true
  | _ => false

/-- Whether failure of an attempt carries over to other texts with a lexeme of the type in
front. -/
def Expr.failsAt (expr : Expr) (type : Terminal) : Bool :=
  (expr.heads (Rule.heads 6)).all (·.apart type) || expr.isMark || deeper.contains (expr, type)

def Expr.failsBefore (expr : Expr) : Follow → Bool
  | .any => false
  | .next types ends => types.all expr.failsAt && (!ends || closers.contains expr)

def Terminal.begins : Terminal → Option Rule
  | .mark .leftParen => some .subrule
  | .keyword .options => some .optionsSpec
  | _ => none

def Expr.begun : Expr → List Rule
  | .literal _ => []
  | .pattern _ => []
  | .rule (.terminal type) => type.begins.toList
  | .rule _ => []
  | .seq first _ => first.begun
  | .choice first second => first.begun ++ second.begun
  | .optional body => body.begun
  | .many body => body.begun
  | .many1 body => body.begun

def Expr.check : Expr → Follow → Bool
  | .literal _, _ => false
  | .pattern _, _ => false
  | .rule (.terminal type), follow => type.precedes follow
  | .rule .trivia, _ => true
  | .rule name, follow => name.grouping && follow.le name.follow
  | .seq first second, follow =>
      first.check (follow.before second) && second.check follow && second.begun.isEmpty
  | .choice first second, follow =>
      first.check follow && second.check follow && first.failsBefore (follow.before second) &&
        !first.nullable
  | .optional body, follow => body.check follow && body.failsBefore follow && !body.nullable
  | .many body, follow =>
      body.check (follow.before (.many body)) && body.failsBefore follow && !body.nullable &&
        body.begun.isEmpty
  | .many1 body, follow =>
      body.check (follow.before (.many body)) && body.failsBefore follow && !body.nullable &&
        body.begun.isEmpty

theorem Rule.check_body {rule : Rule} (hgrouping : rule.grouping = true)
    (hne : rule ≠ .grammarFile) : rule.body.check rule.follow = true := by
  cases rule with
  | terminal type => simp [grouping] at hgrouping
  | trivia => simp [grouping] at hgrouping
  | grammarFile => exact absurd rfl hne
  | _ => first | decide +kernel | cases hgrouping

section Parts

variable {first second body : Expr} {follow : Follow}

theorem Expr.check_rule {name : Rule} (h : (Expr.rule name).check follow = true)
    (hgrouping : name.grouping = true) : follow.le name.follow = true := by
  cases name with
  | terminal type => cases hgrouping
  | trivia => cases hgrouping
  | _ => exact (Bool.and_eq_true_iff.1 h).2

theorem Expr.check_seq (h : (Expr.seq first second).check follow = true) :
    first.check (follow.before second) = true ∧ second.check follow = true ∧
      second.begun = [] := by
  simpa [check, and_assoc] using h

theorem Expr.check_choice (h : (Expr.choice first second).check follow = true) :
    first.check follow = true ∧ second.check follow = true ∧
      first.failsBefore (follow.before second) = true ∧ first.nullable = false := by
  simpa [check, and_assoc] using h

theorem Expr.check_optional (h : (Expr.optional body).check follow = true) :
    body.check follow = true ∧ body.failsBefore follow = true ∧ body.nullable = false := by
  simpa [check, and_assoc] using h

theorem Expr.check_many (h : (Expr.many body).check follow = true) :
    body.check (follow.before (.many body)) = true ∧ body.failsBefore follow = true ∧
      body.nullable = false ∧ body.begun = [] := by
  simpa [check, and_assoc] using h

end Parts

/-! ## Lexemes of a text -/

def Terminal.Precedes (type : Terminal) (lexemes : List Lexeme) : Prop :=
  ∀ types ∈ type.nexts, ∃ lexeme ∈ lexemes.head?, lexeme.type ∈ types

/-- The text is lexemes with trivia between them, up to the text `last`; `enters` holds where
they stand. -/
inductive Lexed (enters : Terminal → List Char → Prop) (last : List Char) :
    List Lexeme → List Char → Prop where
  | nil : Lexed enters last [] last
  | cons {type : Terminal} {chars rest : List Char} {lexemes : List Lexeme}
      (hafter : type.after? (chars ++ rest) = some rest) (hnext : type.Precedes lexemes)
      (henters : enters type (chars ++ rest))
      (hmore : Lexed enters last lexemes (afterTrivia rest)) :
      Lexed enters last (⟨type, chars⟩ :: lexemes) (chars ++ rest)

/-- Where a text is ready for a token, seen from a place where it may not yet be. -/
def settled (ready : Bool) (chars : List Char) : List Char :=
  if ready then chars else afterTrivia chars

def Enters (type : Terminal) (chars : List Char) : Prop :=
  ∀ rule ∈ type.begins, ¬Refuses (.rule rule) chars

theorem Rule.begun_body {rule : Rule} (hgrouping : rule.grouping = true) :
    rule.body.begun ⊆ [rule] := by
  cases rule with
  | terminal type => simp [grouping] at hgrouping
  | trivia => simp [grouping] at hgrouping
  | _ => decide

theorem Terminal.precedes_of_meets {type : Terminal} {follow : Follow}
    {stop : List Lexeme → Prop} {lexemes : List Lexeme} (h : type.precedes follow = true)
    (hmeets : Follow.Meets stop follow lexemes) : type.Precedes lexemes := by
  intro types htypes
  rw [precedes, Option.mem_def.1 htypes] at h
  exact (hmeets.mono h).resolve_right nofun

theorem Yields.not_refuses {expr : Expr} {cursor : Cursor} {found : List Tree × Cursor}
    (h : Yields expr cursor (some found)) : ¬Refuses expr cursor.rest :=
  fun hrefuses => refuses_iff.1 hrefuses cursor.offset found.1 found.2 h

theorem Yields.offset_ne {expr : Expr} {cursor next : Cursor} {trees : List Tree}
    (h : Yields expr cursor (some (trees, next))) (hnullable : expr.nullable = false) :
    next.offset ≠ cursor.offset := by
  intro hstuck
  have hoffset := h.moves.offset_eq
  have hnone : Tree.allChars trees = [] := List.length_eq_zero_iff.1 (by omega)
  rw [h.nullable hnone] at hnullable
  cases hnullable

theorem Yields.lexed {expr : Expr} {cursor next : Cursor} {trees : List Tree}
    (h : Yields expr cursor (some (trees, next))) {ready after : Bool} {follow : Follow}
    {last : List Char} {lexemes : List Lexeme} (hturn : expr.turn ready = some after)
    (hcheck : expr.check follow = true)
    (hbegun : ∀ rule ∈ expr.begun, ¬Refuses (.rule rule) cursor.rest)
    (hmeets : Follow.Meets (fun _ => True) follow lexemes)
    (hmore : Lexed Enters last lexemes (settled after next.rest)) :
    Lexed Enters last (Tree.allLexemes trees ++ lexemes) (settled ready cursor.rest) := by
  generalize hresult : some (trees, next) = result at h
  induction h generalizing trees next ready after follow lexemes with
  | literal | pattern => cases hturn
  | @rule rule cursor next children hbody ih =>
      cases hresult
      have hsome := (Yields.rule hbody).not_refuses
      rcases Rule.turn_cases hturn with ⟨type, rfl, rfl, rfl⟩ | ⟨rfl, rfl, rfl⟩ |
        ⟨hgrouping, hinner⟩
      · rw [Rule.body_terminal] at hbody
        have hrest : cursor.rest = Tree.allChars children ++ next.rest := hbody.moves.rest_eq
        have hafter := Terminal.after?_of_yields hbody
        rw [Tree.allLexemes_terminal]
        rw [settled, if_pos rfl]
        rw [hrest] at hafter hbegun ⊢
        refine .cons hafter (Terminal.precedes_of_meets hcheck hmeets) (fun rule hrule => ?_) hmore
        exact hbegun rule (Option.mem_toList.2 hrule)
      · rw [Tree.allLexemes_trivia]
        rw [settled, if_pos rfl, afterTrivia_of_yields hbody] at hmore
        exact hmore
      · rw [Tree.allLexemes_group hgrouping]
        have hne : rule ≠ .grammarFile := by
          rintro rfl
          cases hturn
        refine ih hinner (Rule.check_body hgrouping hne) (fun name hname => ?_)
          (hmeets.mono (Expr.check_rule hcheck hgrouping)) hmore rfl
        rw [List.mem_singleton.1 (Rule.begun_body hgrouping hname)]
        exact hsome
  | seq _ hsecond ihFirst ihSecond =>
      cases hresult
      obtain ⟨between, hturnFirst, hturnSecond⟩ := Expr.turn_seq hturn
      obtain ⟨hcheckFirst, hcheckSecond, hclosed⟩ := Expr.check_seq hcheck
      rw [Tree.allLexemes_append, List.append_assoc]
      exact ihFirst hturnFirst hcheckFirst hbegun (hmeets.before (hsecond.opens hturnSecond 6))
        (ihSecond hturnSecond hcheckSecond (by simp [hclosed]) hmeets hmore rfl) rfl
  | first _ ih =>
      obtain ⟨rfl, hfirst, -⟩ := Expr.turn_choice hturn
      exact ih hfirst (Expr.check_choice hcheck).1
        (fun rule hrule => hbegun rule (List.mem_append_left _ hrule)) hmeets hmore hresult
  | second _ _ _ ih =>
      obtain ⟨rfl, -, hsecond⟩ := Expr.turn_choice hturn
      exact ih hsecond (Expr.check_choice hcheck).2.1
        (fun rule hrule => hbegun rule (List.mem_append_right _ hrule)) hmeets hmore hresult
  | optionalAtEnd | optionalNone | manyAtEnd | manyNone =>
      cases hresult
      obtain ⟨rfl, rfl, -⟩ := Expr.turn_optional hturn
      exact hmore
  | optionalSome _ _ ih =>
      obtain ⟨rfl, rfl, hbody⟩ := Expr.turn_optional hturn
      exact ih hbody (Expr.check_optional hcheck).1 hbegun hmeets hmore hresult
  | manyLast _ hbody hstuck => exact absurd hstuck (hbody.offset_ne (Expr.check_many hcheck).2.2.1)
  | manyMore _ _ hstuck hmore' ihBody ihMore =>
      cases hresult
      obtain ⟨rfl, rfl, hbody⟩ := Expr.turn_many hturn
      obtain ⟨hcheckBody, -, -, hclosed⟩ := Expr.check_many hcheck
      rw [Tree.allLexemes_append, List.append_assoc]
      exact ihBody hbody hcheckBody (by simp [hclosed]) (hmeets.before (hmore'.opens hturn 6))
        (ihMore hturn hcheck (by simp [Expr.begun, hclosed]) hmeets hmore rfl) rfl
  | many1Some _ _ _ _ ihAll => exact ihAll hturn hcheck hbegun hmeets hmore hresult
  | noLiteral | noPattern | noRule | noFirst | noSecond | many1AtEnd | many1None => cases hresult

theorem Lexed.refuses_of_apart {enters : Terminal → List Char → Prop} {last chars : List Char}
    {lexeme : Lexeme} {lexemes : List Lexeme} (h : Lexed enters last (lexeme :: lexemes) chars)
    {expr : Expr} {after : Bool} (hturn : expr.turn true = some after)
    (hnullable : expr.nullable = false)
    (hapart : (expr.heads (Rule.heads 6)).all (·.apart lexeme.type) = true) :
    Refuses expr chars := by
  cases h with
  | cons hafter _ _ _ =>
      refine refuses_of_heads 6 hturn hnullable fun type htype => ?_
      exact Terminal.after?_of_apart hafter (List.all_eq_true.1 hapart type htype)

/-! ## Names -/

theorem isIdentPart_of_classOf {c : Char} {type : Terminal} (hclass : classOf c = type.group)
    (hword : isWord c = true) : isIdentPart c = true := by
  have hgroup : isWord type.group = true → isIdentPart type.group = true := by
    cases type with
    | keyword word => exact fun _ => (by decide : isIdentPart 'a' = true)
    | mark sign => cases sign <;> decide
    | _ => decide
  unfold classOf at hclass
  split at hclass
  · exact isIdentPart_of_isIdentStart ‹_›
  · split at hclass
    · simp [isIdentPart, Char.isAlphanum, ‹c.isDigit = true›]
    · rw [hclass] at hword ⊢
      exact hgroup hword

theorem stops_of_scanIdentifier? {chars taken rest : List Char}
    (h : scanIdentifier? chars = some (taken, rest)) : Stops isIdentPart rest := by
  cases chars with
  | nil => cases h
  | cons c chars =>
      rw [scanIdentifier?, Option.ite_none_right_eq_some] at h
      cases h.2
      intro d hd
      have hstop := List.head?_dropWhile_not isIdentPart chars
      rwa [Option.mem_def.1 hd] at hstop

def spaceCodes : List Nat :=
  [0x9, 0xA, 0xB, 0xC, 0xD, 0x20, 0x85, 0xA0, 0x1680, 0x2000, 0x2001, 0x2002, 0x2003, 0x2004,
    0x2005, 0x2006, 0x2007, 0x2008, 0x2009, 0x200A, 0x2028, 0x2029, 0x202F, 0x205F, 0x3000]

theorem isWord_of_isSpace {c : Char} (h : isSpace c = true) : isWord c = false := by
  have hcode : c.toNat ∈ spaceCodes := by
    simp only [isSpace, Bool.or_eq_true, Bool.and_eq_true, decide_eq_true_eq, beq_iff_eq] at h
    simp only [spaceCodes, List.mem_cons, List.not_mem_nil, or_false]
    omega
  have hall : ∀ code ∈ spaceCodes, isWord (Char.ofNat code) = false := by decide +kernel
  simpa using hall _ hcode

theorem stops_isWord {rest : List Char}
    (hfront : ∀ c ∈ (afterTrivia rest).head?, isWord c = true → isIdentPart c = true)
    (hstops : Stops isIdentPart rest) : Stops isWord rest := by
  cases rest with
  | nil => exact nofun
  | cons c rest =>
      rw [stops_cons] at hstops ⊢
      by_contra hword
      rw [Bool.not_eq_false] at hword
      have hspace : isSpace c = false := by
        by_contra hspace
        rw [isWord_of_isSpace (Bool.not_eq_false _ ▸ hspace)] at hword
        cases hword
      have hslash : c ≠ '/' := by
        rintro rfl
        exact absurd hword (by decide)
      have hsolid : afterTrivia (c :: rest) = c :: rest :=
        congrArg Prod.snd (scanTrivia_eq_nil_of_solid rest hspace hslash)
      have hpart := hfront c (by simp [hsolid]) hword
      rw [hstops] at hpart
      cases hpart

section Names

variable {enters : Terminal → List Char → Prop} {last : List Char} {lexemes : List Lexeme}

theorem Lexed.front {lexeme : Lexeme} {chars : List Char}
    (h : Lexed enters last (lexeme :: lexemes) chars) :
    ∃ c more, chars = c :: more ∧ classOf c = lexeme.type.group := by
  cases h with
  | cons hafter _ _ _ => exact Terminal.exists_front hafter

theorem Lexed.name {type : Terminal} {chars rest : List Char}
    (hafter : type.after? (chars ++ rest) = some rest) (hnext : type.Precedes lexemes)
    (hmore : Lexed enters last lexemes (afterTrivia rest))
    (htype : type = .identifier ∨ type.isKeyword = true) :
    isName chars = true ∧ Stops isWord rest := by
  cases type with
  | keyword word =>
      obtain ⟨rfl, hstops⟩ := Terminal.eq_of_after?_keyword hafter
      exact ⟨word.isName_text, hstops⟩
  | identifier =>
      obtain ⟨⟨taken, after⟩, hscan, rfl⟩ := Option.map_eq_some_iff.1 hafter
      have htaken : taken = chars := List.append_cancel_right (scanIdentifier?_split hscan)
      refine ⟨htaken ▸ isName_of_scanIdentifier? hscan,
        stops_isWord (fun c hc hword => ?_) (stops_of_scanIdentifier? hscan)⟩
      obtain ⟨next, hlexeme, -⟩ := hnext _ rfl
      cases lexemes with
      | nil => cases hlexeme
      | cons lexeme lexemes =>
          obtain ⟨d, more, hchars, hclass⟩ := hmore.front
          simp only [hchars, List.head?_cons, Option.mem_some_iff] at hc
          exact isIdentPart_of_classOf (hc ▸ hclass) hword
  | _ => simp [Terminal.isKeyword] at htype

end Names

end GrammarLint.Grammar
