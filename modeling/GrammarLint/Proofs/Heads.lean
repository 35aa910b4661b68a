import GrammarLint.Proofs.Terminals
import GrammarLint.Proofs.Tokenisation

/-!
# What a match starts with

A lexeme is a token without its place.  Rules are read in turn: a token where the text
is `ready` for one, and a gap after it.  A match starts with a lexeme of a type among
the `heads` of its expression, or has none; where no head is found the expression is
refused.
-/

namespace GrammarLint

open Grammar Text

structure Lexeme where
  type : Terminal
  chars : List Char
  deriving DecidableEq, Repr

def Token.lexeme (token : Token) : Lexeme :=
  ⟨token.type, token.text.toList⟩

namespace Grammar

/-! ## Lexemes of trees -/

namespace Tree

mutual

def lexemes : Tree → List Lexeme
  | .text _ => []
  | .node rule _ children =>
      match rule with
      | .terminal type => [⟨type, allChars children⟩]
      | .trivia => []
      | _ => allLexemes children

def allLexemes : List Tree → List Lexeme
  | [] => []
  | tree :: trees => tree.lexemes ++ allLexemes trees

end

@[simp] theorem allLexemes_nil : allLexemes [] = [] := rfl

@[simp] theorem allLexemes_append (trees more : List Tree) :
    allLexemes (trees ++ more) = allLexemes trees ++ allLexemes more := by
  induction trees with
  | nil => rfl
  | cons tree trees ih => simp [allLexemes, ih]

@[simp] theorem allLexemes_terminal (type : Terminal) (offset : Nat) (children : List Tree) :
    allLexemes [.node (.terminal type) offset children] = [⟨type, allChars children⟩] := by
  simp [allLexemes, lexemes]

@[simp] theorem allLexemes_trivia (offset : Nat) (children : List Tree) :
    allLexemes [.node .trivia offset children] = [] := by
  simp [allLexemes, lexemes]

theorem allLexemes_group {rule : Rule} (h : rule.grouping = true) (offset : Nat)
    (children : List Tree) : allLexemes [.node rule offset children] = allLexemes children := by
  rw [allLexemes, allLexemes, List.append_nil]
  cases rule with
  | terminal type => simp [Rule.grouping] at h
  | trivia => simp [Rule.grouping] at h
  | _ => rfl

end Tree

section Tokens

variable {cursor next : Cursor} {trees : List Tree}

theorem lexemes_token {type : Terminal}
    (h : Yields (.rule (.terminal type)) cursor (some (trees, next))) :
    ∃ chars, Tree.allLexemes trees = [⟨type, chars⟩] := by
  cases h with
  | rule _ => exact ⟨_, Tree.allLexemes_terminal _ _ _⟩

theorem lexemes_mark {sign : Mark} (h : Yields (Mark.expr sign) cursor (some (trees, next))) :
    Tree.allLexemes trees = [⟨.mark sign, sign.text.toList⟩] := by
  cases h with
  | rule hbody => cases hbody with
    | literal => simp

theorem lexemes_gap (h : Yields gap cursor (some (trees, next))) : Tree.allLexemes trees = [] := by
  cases h with
  | rule _ => exact Tree.allLexemes_trivia _ _

end Tokens

/-! ## Turns -/

/-- Whether the text is ready for a token after the rule, given whether it is before it.
A token leaves a gap to be read, and a gap makes ready. -/
def Rule.turn (rule : Rule) (ready : Bool) : Option Bool :=
  match rule with
  | .terminal _ => if ready then some false else none
  | .optionValue => if ready then some false else none
  | .operator => if ready then some false else none
  | .trivia => if ready then none else some true
  | .grammarFile => none
  | rule => if ready && rule.grouping then some true else none

def Expr.turn : Expr → Bool → Option Bool
  | .literal _, _ => none
  | .pattern _, _ => none
  | .rule name, ready => name.turn ready
  | .seq first second, ready => (first.turn ready).bind second.turn
  | .choice first second, ready =>
      if ready && first.turn true = second.turn true then first.turn true else none
  | .optional body, ready => if ready && body.turn true = some true then some true else none
  | .many body, ready => if ready && body.turn true = some true then some true else none
  | .many1 body, ready => if ready && body.turn true = some true then some true else none

theorem Rule.turn_body {rule : Rule} (hgrouping : rule.grouping = true) {ready after : Bool}
    (h : rule.turn ready = some after) : rule.body.turn ready = some after := by
  revert h
  cases rule with
  | terminal type => simp [grouping] at hgrouping
  | trivia => simp [grouping] at hgrouping
  | _ => cases ready <;> cases after <;> decide

theorem Rule.visible_of_turn {rule : Rule} {ready after : Bool} (h : rule.turn ready = some after) :
    rule.embedded = false := by
  by_contra hembedded
  cases rule <;> simp [turn, grouping, embedded] at h hembedded

theorem Rule.turn_cases {rule : Rule} {ready after : Bool} (h : rule.turn ready = some after) :
    (∃ type, rule = .terminal type ∧ ready = true ∧ after = false) ∨
      (rule = .trivia ∧ ready = false ∧ after = true) ∨
      (rule.grouping = true ∧ rule.body.turn ready = some after) := by
  rcases visible_cases (visible_of_turn h) with ⟨type, rfl⟩ | rfl | hgrouping
  · exact .inl ⟨type, rfl, by simpa [turn, eq_comm] using h⟩
  · exact .inr (.inl ⟨rfl, by simpa [turn, eq_comm] using h⟩)
  · exact .inr (.inr ⟨hgrouping, turn_body hgrouping h⟩)

section Turns

variable {first second body : Expr} {ready after : Bool}

theorem Expr.turn_seq (h : (Expr.seq first second).turn ready = some after) :
    ∃ between, first.turn ready = some between ∧ second.turn between = some after :=
  Option.bind_eq_some_iff.1 h

theorem Expr.turn_choice (h : (Expr.choice first second).turn ready = some after) :
    ready = true ∧ first.turn true = some after ∧ second.turn true = some after := by
  rw [turn, Option.ite_none_right_eq_some, Bool.and_eq_true, decide_eq_true_eq] at h
  obtain ⟨⟨hready, hsame⟩, hfirst⟩ := h
  exact ⟨hready, hfirst, hsame ▸ hfirst⟩

theorem Expr.turn_optional (h : (Expr.optional body).turn ready = some after) :
    ready = true ∧ after = true ∧ body.turn true = some true := by
  rw [turn, Option.ite_none_right_eq_some] at h
  simp_all

theorem Expr.turn_many (h : (Expr.many body).turn ready = some after) :
    ready = true ∧ after = true ∧ body.turn true = some true :=
  turn_optional h

theorem Expr.turn_many1 (h : (Expr.many1 body).turn ready = some after) :
    ready = true ∧ after = true ∧ body.turn true = some true :=
  turn_optional h

theorem Expr.visible_of_turn {expr : Expr} (h : expr.turn ready = some after) :
    expr.visible = true := by
  induction expr generalizing ready after with
  | literal | pattern => cases h
  | rule name => simpa [visible] using Rule.visible_of_turn h
  | seq first second ihFirst ihSecond =>
      obtain ⟨between, hfirst, hsecond⟩ := turn_seq h
      simp [visible, ihFirst hfirst, ihSecond hsecond]
  | choice first second ihFirst ihSecond =>
      obtain ⟨-, hfirst, hsecond⟩ := turn_choice h
      simp [visible, ihFirst hfirst, ihSecond hsecond]
  | optional body ih => exact ih (turn_optional h).2.2
  | many body ih => exact ih (turn_many h).2.2
  | many1 body ih => exact ih (turn_many1 h).2.2

end Turns

/-! ## Heads -/

def Expr.heads (rules : Rule → List Terminal) : Expr → List Terminal
  | .literal _ => []
  | .pattern _ => []
  | .rule name => rules name
  | .seq first second =>
      first.heads rules ++ if first.nullable then second.heads rules else []
  | .choice first second => first.heads rules ++ second.heads rules
  | .optional body => body.heads rules
  | .many body => body.heads rules
  | .many1 body => body.heads rules

def Rule.heads : (depth : Nat) → Rule → List Terminal
  | _, .terminal type => [type]
  | _, .trivia => []
  | 0, _ => Terminal.all
  | depth + 1, rule => rule.body.heads (Rule.heads depth)

theorem Rule.heads_zero {rule : Rule} (h : rule.grouping = true) :
    Rule.heads 0 rule = Terminal.all := by
  cases rule with
  | terminal type => simp [grouping] at h
  | trivia => simp [grouping] at h
  | _ => rfl

theorem Rule.heads_succ {rule : Rule} (h : rule.grouping = true) (depth : Nat) :
    Rule.heads (depth + 1) rule = rule.body.heads (Rule.heads depth) := by
  cases rule with
  | terminal type => simp [grouping] at h
  | trivia => simp [grouping] at h
  | _ => rfl

/-- The first of the lexemes is a head, and stands at the cursor if that is ready for it;
without one there is nothing but gaps. -/
structure Opens (expr : Expr) (depth : Nat) (ready after : Bool) (cursor next : Cursor)
    (lexemes : List Lexeme) : Prop where
  head : ∀ lexeme ∈ lexemes.head?, lexeme.type ∈ expr.heads (Rule.heads depth) ∧
    (ready = true → lexeme.type.after? cursor.rest ≠ none)
  none : lexemes = [] → expr.nullable = true ∧ (ready = true → next = cursor ∧ after = true)

theorem Opens.seq {first second : Expr} {depth : Nat} {ready between after : Bool}
    {cursor middle next : Cursor} {lexemes more : List Lexeme}
    (hleft : Opens first depth ready between cursor middle lexemes)
    (hright : Opens second depth between after middle next more) :
    Opens (.seq first second) depth ready after cursor next (lexemes ++ more) := by
  by_cases hempty : lexemes = []
  · obtain ⟨hnullable, hstays⟩ := hleft.none hempty
    rw [hempty, List.nil_append]
    refine ⟨fun lexeme hlexeme => ?_, fun hnone => ?_⟩
    · obtain ⟨htype, hafter⟩ := hright.head lexeme hlexeme
      refine ⟨by simp [Expr.heads, hnullable, htype], fun hready => ?_⟩
      obtain ⟨rfl, rfl⟩ := hstays hready
      exact hafter rfl
    · obtain ⟨hnullable', hstays'⟩ := hright.none hnone
      refine ⟨by simp [Expr.nullable, hnullable, hnullable'], fun hready => ?_⟩
      obtain ⟨rfl, rfl⟩ := hstays hready
      exact hstays' rfl
  · refine ⟨fun lexeme hlexeme => ?_, by simp [hempty]⟩
    rw [List.head?_append_of_ne_nil _ hempty] at hlexeme
    obtain ⟨htype, hafter⟩ := hleft.head lexeme hlexeme
    exact ⟨List.mem_append_left _ htype, hafter⟩

theorem Yields.opens {expr : Expr} {cursor next : Cursor} {trees : List Tree}
    (h : Yields expr cursor (some (trees, next))) {ready after : Bool}
    (hturn : expr.turn ready = some after) (depth : Nat) :
    Opens expr depth ready after cursor next (Tree.allLexemes trees) := by
  generalize hresult : some (trees, next) = result at h
  induction h generalizing trees next ready after depth with
  | literal | pattern => cases hturn
  | @rule rule cursor next children hbody ih =>
      cases hresult
      rcases Rule.turn_cases hturn with ⟨type, rfl, rfl, rfl⟩ | ⟨rfl, rfl, rfl⟩ |
        ⟨hgrouping, hinner⟩
      · rw [Rule.body_terminal] at hbody
        rw [Tree.allLexemes_terminal]
        refine ⟨?_, by simp⟩
        rintro lexeme ⟨⟩
        refine ⟨by cases depth <;> simp [Expr.heads, Rule.heads], fun _ => ?_⟩
        simp [Terminal.after?_of_yields hbody]
      · rw [Tree.allLexemes_trivia]
        exact ⟨by simp, fun _ => ⟨rfl, by simp⟩⟩
      · rw [Tree.allLexemes_group hgrouping]
        have hnone := (ih hinner 0 rfl).none
        refine ⟨fun lexeme hlexeme => ?_,
          fun hempty => ⟨Rule.nullable_of_body (hnone hempty).1, (hnone hempty).2⟩⟩
        cases depth with
        | zero =>
            refine ⟨?_, ((ih hinner 0 rfl).head lexeme hlexeme).2⟩
            rw [Expr.heads, Rule.heads_zero hgrouping]
            exact lexeme.type.mem_all
        | succ depth =>
            rw [Expr.heads, Rule.heads_succ hgrouping]
            exact (ih hinner depth rfl).head lexeme hlexeme
  | seq _ _ ihFirst ihSecond =>
      cases hresult
      obtain ⟨between, hturnFirst, hturnSecond⟩ := Expr.turn_seq hturn
      rw [Tree.allLexemes_append]
      exact (ihFirst hturnFirst depth rfl).seq (ihSecond hturnSecond depth rfl)
  | first _ ih =>
      obtain ⟨rfl, hfirst, -⟩ := Expr.turn_choice hturn
      obtain ⟨hhead, hnone⟩ := ih hfirst depth hresult
      exact ⟨fun lexeme hlexeme => (hhead lexeme hlexeme).imp_left (List.mem_append_left _),
        fun hempty => (hnone hempty).imp_left fun h => by simp [Expr.nullable, h]⟩
  | second _ _ _ ih =>
      obtain ⟨rfl, -, hsecond⟩ := Expr.turn_choice hturn
      obtain ⟨hhead, hnone⟩ := ih hsecond depth hresult
      exact ⟨fun lexeme hlexeme => (hhead lexeme hlexeme).imp_left (List.mem_append_right _),
        fun hempty => (hnone hempty).imp_left fun h => by simp [Expr.nullable, h]⟩
  | optionalAtEnd | optionalNone | manyAtEnd | manyNone =>
      cases hresult
      exact ⟨by simp, fun _ => ⟨rfl, fun _ => ⟨rfl, (Expr.turn_optional hturn).2.1⟩⟩⟩
  | optionalSome _ _ ih =>
      obtain ⟨rfl, rfl, hbody⟩ := Expr.turn_optional hturn
      obtain ⟨hhead, hnone⟩ := ih hbody depth hresult
      exact ⟨hhead, fun hempty => ⟨rfl, (hnone hempty).2⟩⟩
  | manyLast _ _ _ ih =>
      obtain ⟨rfl, rfl, hbody⟩ := Expr.turn_many hturn
      obtain ⟨hhead, hnone⟩ := ih hbody depth hresult
      exact ⟨hhead, fun hempty => ⟨rfl, (hnone hempty).2⟩⟩
  | manyMore _ _ hstuck _ ihBody ihMore =>
      cases hresult
      obtain ⟨rfl, rfl, hbody⟩ := Expr.turn_many hturn
      obtain ⟨hhead, hnone⟩ := ihBody hbody depth rfl
      have hempty : Tree.allLexemes _ ≠ [] := fun hempty =>
        hstuck (congrArg Cursor.offset ((hnone hempty).2 rfl).1)
      rw [Tree.allLexemes_append]
      refine ⟨fun lexeme hlexeme => hhead lexeme ?_, by simp [hempty]⟩
      rwa [List.head?_append_of_ne_nil _ hempty] at hlexeme
  | many1Some hend hbody hall _ ihAll =>
      cases hresult
      obtain ⟨rfl, rfl, hturnBody⟩ := Expr.turn_many1 hturn
      obtain ⟨hhead, hnone⟩ := @ihAll _ _ true true (by simp [Expr.turn, hturnBody]) depth rfl
      refine ⟨hhead, fun hempty => ⟨?_, (hnone hempty).2⟩⟩
      have hstays := ((hnone hempty).2 rfl).1
      refine (Yields.many1Some hend hbody hall).nullable ?_
      have hlength := hall.moves.length_eq
      rw [hstays] at hlength
      exact List.length_eq_zero_iff.1 (by omega)
  | noLiteral | noPattern | noRule | noFirst | noSecond | many1AtEnd | many1None => cases hresult

theorem refuses_of_heads (depth : Nat) {expr : Expr} {after : Bool} {chars : List Char}
    (hturn : expr.turn true = some after) (hnullable : expr.nullable = false)
    (h : ∀ type ∈ expr.heads (Rule.heads depth), type.after? chars = none) :
    Refuses expr chars := by
  refine refuses_iff.2 fun offset trees next hyields => ?_
  obtain ⟨hhead, hnone⟩ := hyields.opens hturn depth
  cases hlexemes : Tree.allLexemes trees with
  | nil => simp [(hnone hlexemes).1] at hnullable
  | cons lexeme lexemes =>
      obtain ⟨htype, hafter⟩ := hhead lexeme (by simp [hlexemes])
      exact hafter rfl (h _ htype)

/-! ## Types told apart -/

theorem Keyword.text_injective {word other : Keyword} (h : word.text = other.text) :
    word = other := by
  have hall : ∀ word ∈ Keyword.all, ∀ other ∈ Keyword.all, word.text = other.text →
      word = other := by decide
  exact hall word word.mem_all other other.mem_all h

/-- A character that stands for all that a token may start with in its place. -/
def classOf (c : Char) : Char :=
  if isIdentStart c then 'a' else if c.isDigit then '0' else c

theorem isIdentStart_of_isDigit {c : Char} (h : c.isDigit = true) : isIdentStart c = false := by
  have hdigit := Bool.and_eq_true_iff.1 h
  have hlow : 48 ≤ c.toNat := UInt32.le_iff_toNat_le.1 (of_decide_eq_true hdigit.1)
  have hhigh : c.toNat ≤ 57 := UInt32.le_iff_toNat_le.1 (of_decide_eq_true hdigit.2)
  have hcodes : ∀ code < 58, 48 ≤ code → isIdentStart (Char.ofNat code) = false := by decide
  simpa using hcodes c.toNat (by omega) hlow

namespace Terminal

def group : Terminal → Char
  | .keyword _ => 'a'
  | .mark sign => sign.text.toList.headD 'a'
  | .identifier => 'a'
  | .qualifiedId => 'a'
  | .stringLiteral => '\''
  | .doubleQuoted => '"'
  | .integer => '0'
  | .actionBlock => '\x7b'
  | .argBlock => '['

theorem classOf_of_starts {type : Terminal} {c : Char}
    (h : type.body.starts (Rule.starts 0) c = true) : classOf c = type.group := by
  have hname {c : Char} (h : isIdentStart c = true) : classOf c = 'a' := if_pos h
  cases type with
  | keyword word =>
      have hc : word.text.toList.head? = some c := by
        simpa [body, Expr.starts, Pattern.starts] using h
      cases word <;> cases hc <;> decide
  | mark sign =>
      have hc : sign.text.toList.head? = some c := by simpa [body, Expr.starts] using h
      cases sign <;> cases hc <;> decide
  | identifier => exact hname h
  | qualifiedId => exact hname h
  | stringLiteral =>
      have hc : c = '\'' := by simpa [body, Expr.starts, Pattern.starts] using h
      rw [hc]
      decide
  | doubleQuoted =>
      have hc : c = '"' := by simpa [body, Expr.starts, Pattern.starts] using h
      rw [hc]
      decide
  | integer =>
      have hc : c.isDigit = true := h
      rw [classOf, isIdentStart_of_isDigit hc, hc]
      rfl
  | actionBlock =>
      have hc : '\x7b' = c := by
        simpa [body, Expr.starts, Expr.inOrder, openBrace, Expr.nullable] using h
      rw [← hc]
      decide
  | argBlock =>
      have hc : '[' = c := by
        simpa [body, Expr.starts, Expr.inOrder, Expr.nullable] using h
      rw [← hc]
      decide

theorem exists_front {type : Terminal} {chars rest : List Char}
    (h : type.after? chars = some rest) :
    ∃ c more, chars = c :: more ∧ classOf c = type.group := by
  obtain ⟨result, hyields, hresult⟩ := type.yields_after ⟨0, chars⟩
  rw [h, Option.map_eq_some_iff] at hresult
  obtain ⟨⟨trees, next⟩, rfl, -⟩ := hresult
  have htaken : Tree.allChars trees ≠ [] := by
    intro hnone
    have hnullable := @Rule.nullable_of_body (.terminal type) (hyields.nullable hnone)
    simp [Rule.nullable] at hnullable
  cases chars with
  | nil =>
      have hmoves : [] = Tree.allChars trees ++ next.rest := hyields.moves.rest_eq
      exact absurd (List.append_eq_nil_iff.1 hmoves.symm).1 htaken
  | cons c more => exact ⟨c, more, rfl, classOf_of_starts (hyields.starts rfl htaken 0)⟩

def isKeyword : Terminal → Bool
  | .keyword _ => true
  | _ => false

def apart (type other : Terminal) : Bool :=
  type.group != other.group || (type.isKeyword && other.isKeyword && type != other)

theorem after?_of_group_ne {type other : Terminal} {chars rest : List Char}
    (h : other.after? chars = some rest) (hgroup : type.group ≠ other.group) :
    type.after? chars = none := by
  by_contra hsome
  obtain ⟨found, hfound⟩ := Option.ne_none_iff_exists'.1 hsome
  obtain ⟨c, more, rfl, hclass⟩ := exists_front h
  obtain ⟨_, _, hchars, hclass'⟩ := exists_front hfound
  cases hchars
  exact hgroup (hclass'.symm.trans hclass)

theorem stops_of_endsWord {rest : List Char} (h : endsWord rest = true) : Stops isWord rest := by
  cases rest with
  | nil => exact nofun
  | cons c rest => simpa [endsWord] using h

theorem after?_keyword (word : Keyword) {name rest : List Char} (hname : isName name = true)
    (hstops : Stops isWord rest) :
    (keyword word).after? (name ++ rest) = if name = word.text.toList then some rest else none := by
  rw [after?, scanWord_name word hname hstops]
  split <;> rfl

theorem after?_identifier {name rest : List Char} (hname : isName name = true)
    (hstops : Stops isWord rest) : identifier.after? (name ++ rest) = some rest := by
  rw [after?, scanIdentifier?_name hname hstops.isIdentPart]
  rfl

theorem eq_of_after?_keyword {word : Keyword} {chars rest : List Char}
    (h : (keyword word).after? (chars ++ rest) = some rest) :
    chars = word.text.toList ∧ Stops isWord rest := by
  obtain ⟨⟨taken, after⟩, hscan, rfl⟩ := Option.map_eq_some_iff.1 h
  have hsplit := Pattern.scan?_split hscan
  rw [Pattern.scan?, Option.ite_none_right_eq_some, Bool.and_eq_true] at hscan
  obtain ⟨⟨-, hends⟩, hword⟩ := hscan
  obtain ⟨rfl, hafter⟩ := Prod.mk.inj (Option.some.inj hword)
  rw [hafter] at hends
  exact ⟨(List.append_cancel_right hsplit).symm, stops_of_endsWord hends⟩

theorem exists_taken {type : Terminal} {chars rest : List Char}
    (h : type.after? chars = some rest) : ∃ taken, chars = taken ++ rest := by
  obtain ⟨result, hyields, hresult⟩ := type.yields_after ⟨0, chars⟩
  rw [h, Option.map_eq_some_iff] at hresult
  obtain ⟨⟨trees, next⟩, rfl, hrest⟩ := hresult
  exact ⟨_, hrest ▸ hyields.moves.rest_eq⟩

theorem after?_mark {sign : Mark} {chars rest : List Char} :
    (mark sign).after? chars = some rest ↔ chars = sign.text.toList ++ rest := by
  rw [after?, Option.ite_none_right_eq_some, List.isPrefixOf_iff_prefix, Option.some.injEq]
  constructor
  · rintro ⟨hfront, rfl⟩
    exact (List.prefix_iff_eq_append.1 hfront).symm
  · rintro rfl
    exact ⟨List.prefix_append _ _, List.drop_left⟩

theorem after?_of_apart {type other : Terminal} {chars rest : List Char}
    (h : other.after? chars = some rest) (hapart : type.apart other = true) :
    type.after? chars = none := by
  rw [apart, Bool.or_eq_true, bne_iff_ne] at hapart
  rcases hapart with hgroup | hkeywords
  · exact after?_of_group_ne h hgroup
  · simp only [Bool.and_eq_true, bne_iff_ne] at hkeywords
    obtain ⟨⟨htype, hother⟩, hne⟩ := hkeywords
    cases type with
    | keyword word =>
        cases other with
        | keyword other =>
            obtain ⟨taken, rfl⟩ := exists_taken h
            obtain ⟨rfl, hstops⟩ := eq_of_after?_keyword h
            rw [after?_keyword word other.isName_text hstops, if_neg]
            exact fun hsame => hne (congrArg keyword (Keyword.text_injective
              (String.toList_injective hsame.symm)))
        | _ => cases hother
    | _ => cases htype

end Terminal

end Grammar

end GrammarLint
