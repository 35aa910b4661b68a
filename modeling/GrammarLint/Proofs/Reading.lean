import GrammarLint.Proofs.Assembly

/-!
# From matches to nodes

The items of a match are read off the expression: `Admits` lists the tokens and
items that an expression can have once it is known which ones each rule gives.
Every rule turns what its body admits into what `Gives` promises of it.
-/

namespace GrammarLint

open Grammar Text

/-! ## Items of expressions -/

inductive Repeats (part : List Token → List Item → Prop) : List Token → List Item → Prop where
  | nil : Repeats part [] []
  | cons {tokens more : List Token} {items others : List Item} (hfirst : part tokens items)
      (hmore : Repeats part more others) : Repeats part (tokens ++ more) (items ++ others)

def Admits (gives : Rule → List Token → List Item → Prop) :
    Expr → List Token → List Item → Prop
  | .literal _, _, _ => False
  | .pattern _, _, _ => False
  | .rule name, tokens, items => gives name tokens items
  | .seq first second, tokens, items =>
      ∃ before after firsts seconds, Admits gives first before firsts ∧
        Admits gives second after seconds ∧ tokens = before ++ after ∧ items = firsts ++ seconds
  | .choice first second, tokens, items =>
      Admits gives first tokens items ∨ Admits gives second tokens items
  | .optional body, tokens, items => (tokens = [] ∧ items = []) ∨ Admits gives body tokens items
  | .many body, tokens, items => Repeats (Admits gives body) tokens items
  | .many1 body, tokens, items => Repeats (Admits gives body) tokens items

def Gives (part : Rule → List Token → Node → Prop) : Rule → List Token → List Item → Prop
  | .terminal type, tokens, items =>
      ∃ token : Token, token.type = type ∧ tokens = [token] ∧ items = [.token token]
  | .trivia, tokens, items => tokens = [] ∧ items = []
  | .grammarType, tokens, items =>
      ∃ token : Token, token.type ∈ [.keyword .lexer, .keyword .parser, .keyword .tree] ∧
        tokens = [token] ∧ items = [.token token]
  | .optionValue, tokens, items =>
      ∃ token : Token, token.type ∈ optionValueTypes ∧ tokens = [token] ∧ items = [.token token]
  | .operator, tokens, items =>
      ∃ (token : Token) (sign : Mark), token.type = .mark sign ∧ (operatorKind? sign).isSome ∧
        tokens = [token] ∧ items = [.token token]
  | .exceptionGroup, tokens, items =>
      ∃ catches final : List Token × List Node, Each (part .catchClause) catches.1 catches.2 ∧
        Maybe (part .finallyClause) final.1 final.2 ∧
        tokens = catches.1 ++ final.1 ∧ items = (catches.2 ++ final.2).map .node
  | .subruleOptions, tokens, items =>
      ∃ (options : List Token) (colon : Token) (node : Node), part .optionsSpec options node ∧
        colon.type = .mark .colon ∧ tokens = options ++ [colon] ∧
        items = [.node node, .token colon]
  | rule, tokens, items => ∃ node, part rule tokens node ∧ items = [.node node]

/-! ## Taking sequences apart -/

namespace Grammar

@[simp] theorem Rule.expr_eq (rule : Rule) : rule.expr = .rule rule := rfl

@[simp] theorem Keyword.expr_eq (word : Keyword) :
    word.expr = .rule (.terminal (.keyword word)) := rfl

@[simp] theorem Mark.expr_eq (sign : Mark) : sign.expr = .rule (.terminal (.mark sign)) := rfl

@[simp] theorem Terminal.expr_eq (type : Terminal) : type.expr = .rule (.terminal type) := rfl

@[simp] theorem identifier_eq : identifier = .rule (.terminal .identifier) := rfl

@[simp] theorem actionBlock_eq : actionBlock = .rule (.terminal .actionBlock) := rfl

@[simp] theorem argBlock_eq : argBlock = .rule (.terminal .argBlock) := rfl

@[simp] theorem Expr.inOrder_nil (first : Expr) : inOrder first [] = first := rfl

@[simp] theorem Expr.inOrder_cons (first next : Expr) (rest : List Expr) :
    inOrder first (next :: rest) = .seq first (inOrder next rest) := rfl

@[simp] theorem Expr.firstOf_nil (first : Expr) : firstOf first [] = first := rfl

@[simp] theorem Expr.firstOf_cons (first next : Expr) (rest : List Expr) :
    firstOf first (next :: rest) = .choice first (firstOf next rest) := rfl

def Rule.single : Rule → Bool
  | .terminal _ => false
  | .trivia => false
  | .grammarType => false
  | .optionValue => false
  | .operator => false
  | .exceptionGroup => false
  | .subruleOptions => false
  | _ => true

end Grammar

section Sequences

variable {part : Rule → List Token → Node → Prop} {rest : Expr} {tokens : List Token}
  {items : List Item}

@[simp] theorem admits_choice {first second : Expr} :
    Admits (Gives part) (.choice first second) tokens items ↔
      Admits (Gives part) first tokens items ∨ Admits (Gives part) second tokens items :=
  Iff.rfl

@[simp] theorem admits_gap : Admits (Gives part) gap tokens items ↔ tokens = [] ∧ items = [] :=
  Iff.rfl

@[simp] theorem admits_gap_seq :
    Admits (Gives part) (.seq gap rest) tokens items ↔ Admits (Gives part) rest tokens items := by
  constructor
  · rintro ⟨_, after, _, seconds, ⟨rfl, rfl⟩, hrest, rfl, rfl⟩
    exact hrest
  · intro hrest
    exact ⟨[], tokens, [], items, ⟨rfl, rfl⟩, hrest, rfl, rfl⟩

theorem admits_token_seq {first : Expr} (types : Terminal → Prop)
    (hfirst : ∀ {tokens items}, Admits (Gives part) first tokens items ↔
      ∃ token : Token, types token.type ∧ tokens = [token] ∧ items = [.token token]) :
    Admits (Gives part) (.seq first rest) tokens items ↔
      ∃ token : Token, types token.type ∧ ∃ (more : List Token) (others : List Item),
        (tokens = token :: more ∧ items = .token token :: others) ∧
          Admits (Gives part) rest more others := by
  constructor
  · rintro ⟨_, more, _, others, hrule, hrest, rfl, rfl⟩
    obtain ⟨token, htype, rfl, rfl⟩ := hfirst.1 hrule
    exact ⟨token, htype, more, others, ⟨rfl, rfl⟩, hrest⟩
  · rintro ⟨token, htype, more, others, ⟨rfl, rfl⟩, hrest⟩
    exact ⟨[token], more, [.token token], others, hfirst.2 ⟨token, htype, rfl, rfl⟩, hrest,
      rfl, rfl⟩

@[simp] theorem admits_terminal {type : Terminal} :
    Admits (Gives part) (.rule (.terminal type)) tokens items ↔
      ∃ token : Token, token.type = type ∧ tokens = [token] ∧ items = [.token token] :=
  Iff.rfl

@[simp] theorem admits_terminal_seq {type : Terminal} :
    Admits (Gives part) (.seq (.rule (.terminal type)) rest) tokens items ↔
      ∃ token : Token, token.type = type ∧ ∃ (more : List Token) (others : List Item),
        (tokens = token :: more ∧ items = .token token :: others) ∧
          Admits (Gives part) rest more others :=
  admits_token_seq (· = type) admits_terminal

@[simp] theorem admits_optionValue_seq :
    Admits (Gives part) (.seq (.rule .optionValue) rest) tokens items ↔
      ∃ token : Token, token.type ∈ optionValueTypes ∧
        ∃ (more : List Token) (others : List Item),
        (tokens = token :: more ∧ items = .token token :: others) ∧
          Admits (Gives part) rest more others :=
  admits_token_seq (· ∈ optionValueTypes) Iff.rfl

@[simp] theorem admits_grammarType_seq :
    Admits (Gives part) (.seq (.rule .grammarType) rest) tokens items ↔
      ∃ token : Token, token.type ∈ [.keyword .lexer, .keyword .parser, .keyword .tree] ∧
        ∃ (more : List Token) (others : List Item),
        (tokens = token :: more ∧ items = .token token :: others) ∧
          Admits (Gives part) rest more others :=
  admits_token_seq (· ∈ [.keyword .lexer, .keyword .parser, .keyword .tree]) Iff.rfl

@[simp] theorem admits_choice_seq {first second : Expr} :
    Admits (Gives part) (.seq (.choice first second) rest) tokens items ↔
      Admits (Gives part) (.seq first rest) tokens items ∨
        Admits (Gives part) (.seq second rest) tokens items := by
  constructor
  · rintro ⟨before, after, firsts, others, hfirst | hsecond, hrest, rfl, rfl⟩
    · exact .inl ⟨before, after, firsts, others, hfirst, hrest, rfl, rfl⟩
    · exact .inr ⟨before, after, firsts, others, hsecond, hrest, rfl, rfl⟩
  · rintro (⟨before, after, firsts, others, hfirst, hrest, rfl, rfl⟩ |
      ⟨before, after, firsts, others, hsecond, hrest, rfl, rfl⟩)
    · exact ⟨before, after, firsts, others, .inl hfirst, hrest, rfl, rfl⟩
    · exact ⟨before, after, firsts, others, .inr hsecond, hrest, rfl, rfl⟩

@[simp] theorem admits_optional {body : Expr} :
    Admits (Gives part) (.optional body) tokens items ↔
      (tokens = [] ∧ items = []) ∨ Admits (Gives part) body tokens items :=
  Iff.rfl

@[simp] theorem admits_optional_seq {body : Expr} :
    Admits (Gives part) (.seq (.optional body) rest) tokens items ↔
      Admits (Gives part) rest tokens items ∨
        Admits (Gives part) (.seq body rest) tokens items := by
  constructor
  · rintro ⟨before, after, firsts, seconds, ⟨rfl, rfl⟩ | hbody, hrest, rfl, rfl⟩
    · exact .inl hrest
    · exact .inr ⟨before, after, firsts, seconds, hbody, hrest, rfl, rfl⟩
  · rintro (hrest | ⟨before, after, firsts, seconds, hbody, hrest, rfl, rfl⟩)
    · exact ⟨[], tokens, [], items, .inl ⟨rfl, rfl⟩, hrest, rfl, rfl⟩
    · exact ⟨before, after, firsts, seconds, .inr hbody, hrest, rfl, rfl⟩

@[simp] theorem admits_seq_seq {first second : Expr} :
    Admits (Gives part) (.seq (.seq first second) rest) tokens items ↔
      Admits (Gives part) (.seq first (.seq second rest)) tokens items := by
  constructor
  · rintro ⟨_, after, _, lasts, ⟨before, middle, firsts, seconds, hfirst, hsecond, rfl, rfl⟩,
      hrest, rfl, rfl⟩
    exact ⟨before, middle ++ after, firsts, seconds ++ lasts, hfirst,
      ⟨middle, after, seconds, lasts, hsecond, hrest, rfl, rfl⟩, by simp, by simp⟩
  · rintro ⟨before, _, firsts, _, hfirst, ⟨middle, after, seconds, lasts, hsecond, hrest, rfl, rfl⟩,
      rfl, rfl⟩
    exact ⟨before ++ middle, after, firsts ++ seconds, lasts,
      ⟨before, middle, firsts, seconds, hfirst, hsecond, rfl, rfl⟩, hrest, by simp, by simp⟩

theorem gives_single {rule : Rule} (h : rule.single = true) :
    Gives part rule tokens items ↔ ∃ node, part rule tokens node ∧ items = [.node node] := by
  cases rule with
  | terminal | trivia | grammarType | optionValue | operator | exceptionGroup | subruleOptions =>
      simp [Rule.single] at h
  | _ => exact Iff.rfl

theorem admits_single_seq {rule : Rule} (h : rule.single = true) :
    Admits (Gives part) (.seq (.rule rule) rest) tokens items ↔
      ∃ before node, part rule before node ∧ ∃ after others,
        (tokens = before ++ after ∧ items = .node node :: others) ∧
          Admits (Gives part) rest after others := by
  constructor
  · rintro ⟨before, after, _, others, hrule, hrest, rfl, rfl⟩
    obtain ⟨node, hnode, rfl⟩ := (gives_single h).1 hrule
    exact ⟨before, node, hnode, after, others, ⟨rfl, rfl⟩, hrest⟩
  · rintro ⟨before, node, hnode, after, others, ⟨rfl, rfl⟩, hrest⟩
    exact ⟨before, after, [.node node], others, (gives_single h).2 ⟨node, hnode, rfl⟩, hrest,
      rfl, rfl⟩

theorem Admits.each {rule : Rule} (hsingle : rule.single = true)
    (h : Admits (Gives part) (.many (.rule rule)) tokens items) :
    ∃ nodes, Each (part rule) tokens nodes ∧ items = nodes.map .node := by
  change Repeats _ tokens items at h
  induction h with
  | nil => exact ⟨[], .nil, rfl⟩
  | cons hfirst _ ih =>
      obtain ⟨node, hnode, rfl⟩ := (gives_single hsingle).1 hfirst
      obtain ⟨nodes, hnodes, rfl⟩ := ih
      exact ⟨node :: nodes, .cons hnode hnodes, rfl⟩

theorem Admits.eachAfter {rule : Rule} {sign : Mark} (hsingle : rule.single = true)
    (h : Admits (Gives part) (.many (.inOrder sign.expr [gap, rule.expr])) tokens items) :
    ∃ nodes, Each (After sign (part rule)) tokens nodes ∧ Item.nodes items = nodes := by
  change Repeats _ tokens items at h
  induction h with
  | nil => exact ⟨[], .nil, rfl⟩
  | cons hfirst _ ih =>
      obtain ⟨nodes, hnodes, rfl⟩ := ih
      simp only [Expr.inOrder_cons, Expr.inOrder_nil, Mark.expr_eq, Rule.expr_eq,
        admits_terminal_seq, admits_gap_seq] at hfirst
      obtain ⟨mark, hmark, more, _, ⟨rfl, rfl⟩, hrule⟩ := hfirst
      obtain ⟨node, hnode, rfl⟩ := (gives_single hsingle).1 hrule
      exact ⟨_, .cons ⟨mark, more, hmark, hnode, rfl⟩ hnodes, rfl⟩

theorem Admits.listed {type : Terminal}
    (h : Admits (Gives part) (.many (.inOrder (Mark.expr .comma) [gap, type.expr, gap]))
      tokens items) :
    ∃ names, Listed type tokens names ∧ items = tokens.map .token := by
  change Repeats _ tokens items at h
  induction h with
  | nil => exact ⟨[], .nil, rfl⟩
  | cons hfirst _ ih =>
      obtain ⟨names, hnames, rfl⟩ := ih
      simp at hfirst
      obtain ⟨comma, hcomma, name, ⟨rfl, rfl⟩, hname⟩ := hfirst
      exact ⟨name :: names, .cons hcomma hname hnames, rfl⟩

theorem Admits.maybe {rule : Rule} (hsingle : rule.single = true)
    (h : Admits (Gives part) (.optional (.rule rule)) tokens items) :
    ∃ nodes, Maybe (part rule) tokens nodes ∧ items = nodes.map .node := by
  rcases admits_optional.1 h with ⟨rfl, rfl⟩ | hrule
  · exact ⟨[], .none, rfl⟩
  · obtain ⟨node, hnode, rfl⟩ := (gives_single hsingle).1 hrule
    exact ⟨[node], .some hnode, rfl⟩

def optionals (rules : List Rule) (rest : Expr) : Expr :=
  rules.foldr (fun rule rest => .seq (.optional (.rule rule)) rest) rest

theorem Admits.inOrder {rules : List Rule} (hsingle : ∀ rule ∈ rules, rule.single = true)
    (h : Admits (Gives part) (optionals rules rest) tokens items) :
    ∃ before nodes, InOrder part rules before nodes ∧ ∃ after others,
      (tokens = before ++ after ∧ items = nodes.map .node ++ others) ∧
        Admits (Gives part) rest after others := by
  induction rules generalizing tokens items with
  | nil => exact ⟨[], [], .nil, tokens, items, ⟨rfl, rfl⟩, h⟩
  | cons rule rules ih =>
      obtain ⟨before, after, firsts, seconds, hfirst, hrest, rfl, rfl⟩ := h
      obtain ⟨middle, nodes, horder, last, others, ⟨rfl, rfl⟩, hlast⟩ :=
        ih (fun other hother => hsingle other (List.mem_cons_of_mem _ hother)) hrest
      obtain ⟨found, hfound, rfl⟩ := hfirst.maybe (hsingle rule List.mem_cons_self)
      cases hfound with
      | none => exact ⟨middle, nodes, .skip horder, last, others, ⟨rfl, rfl⟩, hlast⟩
      | some hnode =>
          exact ⟨before ++ middle, _, .take hnode horder, last, others, by simp, hlast⟩

end Sequences

end GrammarLint
