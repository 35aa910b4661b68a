import GrammarLint.Check.Spacing
import GrammarLint.Proofs.Forward
import GrammarLint.Proofs.Layout

/-!
# Reading blocks

The entries of options and tokens blocks, written by the conventions, are read as
the nodes they stand for, on one line, at the first indentation and with spaces
around the sign.
-/

namespace GrammarLint

open Grammar Text

namespace Layout

/-! ## Names -/

section Names

variable (name : Name) (rest : List Char)

theorem Name.no_break : '\n' ∉ name.chars := by
  intro hmem
  have hpart := all_isIdentPart name.valid '\n' hmem
  simp [isIdentPart] at hpart

theorem Name.exists_cons : ∃ c chars, name.chars = c :: chars ∧ isIdentPart c = true := by
  obtain ⟨chars, hvalid⟩ := name
  cases chars with
  | nil => simp [isName] at hvalid
  | cons c chars => exact ⟨c, chars, rfl, all_isIdentPart hvalid c List.mem_cons_self⟩

theorem Name.solid : Solid (name.chars ++ rest) := by
  obtain ⟨c, chars, hchars, hpart⟩ := name.exists_cons
  rw [hchars]
  exact solid_of_isIdentPart _ hpart

end Names

/-! ## Entries -/

/-- An entry on one line, at the first indentation, with space around its sign. -/
structure TidyPair (sign left right : Node) : Prop where
  kind_eq : sign.kind = .assign
  children_eq : sign.children = [left, right]
  column_eq : left.column = indent
  left_line : left.line = sign.line
  right_line : right.line = sign.line
  left_apart : Check.Spacing.hasSpaceBetween left sign = true
  right_apart : Check.Spacing.hasSpaceBetween sign right = true

theorem tidyPair {before : List Char} (hcolumn : Position.sinceBreak before = indent)
    (name : Name) (index : Nat) (type : Terminal) (value : List Char) (leftKind rightKind : Kind)
    {sign left right : Token}
    (hleft : left = tokenAfter before index .identifier name.chars)
    (hsign : sign = tokenAfter (before ++ name.chars ++ [' ']) (index + 1) (.mark .assign) ['='])
    (hright : right = tokenAfter (before ++ name.chars ++ [' '] ++ ['='] ++ [' ']) (index + 1 + 1)
      type value) :
    TidyPair (Assemble.pair sign (.ofToken leftKind left) (.ofToken rightKind right))
      (.ofToken leftKind left) (.ofToken rightKind right) := by
  have hcount := List.count_eq_zero.2 name.no_break
  have hsignColumn : Position.sinceBreak (before ++ name.chars ++ [' ']) =
      indent + name.chars.length + 1 := by
    rw [Position.sinceBreak_append (by decide), Position.sinceBreak_append name.no_break, hcolumn]
    rfl
  have hrightColumn : Position.sinceBreak (before ++ name.chars ++ [' '] ++ ['='] ++ [' ']) =
      indent + name.chars.length + 3 := by
    rw [Position.sinceBreak_append (by decide), Position.sinceBreak_append (by decide), hsignColumn]
    rfl
  subst hleft hsign hright
  constructor
  · rfl
  · rfl
  · simp [tokenAfter, hcolumn]
  · simp [tokenAfter, hcount]
  · simp [tokenAfter, hcount]
  · simp only [Check.Spacing.hasSpaceBetween, tokenAfter, hsignColumn, hcolumn]
    simp
  · have hone : (String.ofList ['=']).length = 1 := rfl
    simp only [Check.Spacing.hasSpaceBetween, tokenAfter, hsignColumn, hrightColumn,
      Assemble.pair_column, Assemble.pair_text, Node.ofToken_column, hone]
    simp only [decide_eq_true_eq]
    omega

def TidyEntry (node : Node) : Prop :=
  (∃ left right, TidyPair node left right) ∨ node.children = [] ∧ node.column = indent

/-- The text is read as the node `expected`, from the given column on and up to the
next text. -/
def ReadsEntry (expr : Expr) (column : Nat) (follow : List Char → Prop)
    (good : List Token → Node → Prop) (text : List Char) (expected : Node) : Prop :=
  ∀ {before blank rest : List Char} (index : Nat), Position.sinceBreak before = column →
    blank.all isSpace = true → follow rest →
    ∃ tokens node, Reads expr ⟨before, text ++ (blank ++ rest), index⟩
      ⟨before ++ text ++ blank, rest, index + tokens.length⟩ tokens [.node node] ∧
      node.bare = expected ∧ good tokens node

theorem reads_option (entry : Name × Name) :
    ReadsEntry (.rule .option) indent Solid (fun _ => TidyEntry) (optionEntry entry)
      (optionNode entry) := by
  intro before blank rest index hcolumn hblank hsolid
  obtain ⟨key, value⟩ := entry
  have hread : Reads Rule.option.body
      ⟨before, key.chars ++ ([' '] ++ (['='] ++ ([' '] ++ (value.chars ++ ([] ++ ([';'] ++
        (blank ++ rest))))))), index⟩ _ _ _ :=
    .lexeme_gap (lexes_identifier key.valid (stops_cons.2 rfl)) rfl (stops_cons.2 rfl)
      (.lexeme_gap (lexes_mark .assign _) rfl (value.solid _)
        (.seq (.rule (.first (.lexeme (lexes_qualifiedId value.valid (stops_cons.2 rfl)
            (stops_cons.2 rfl)))) rfl rfl)
          (.seq (.gap rfl (stops_cons.2 rfl))
            (.lexeme_last (lexes_mark .semicolon _) hblank hsolid))))
  exact ⟨_, _, (hread.rule rfl rfl).cast (by simp [optionEntry]) (by simp [optionEntry]), rfl,
    .inl ⟨_, _, tidyPair hcolumn key index _ value.chars _ _ rfl rfl rfl⟩⟩

theorem literalKind_plain {body : List Char} (h : isPlain body = true) :
    literalKind (String.ofList ('\'' :: (body ++ ['\'']))) =
      if body.length = 1 then .charLiteral else .stringLiteral := by
  simp only [literalKind, String.toList_ofList, List.tail_cons, List.dropLast_concat]
  split
  · rfl
  · simp [isPlain] at h
  · rename_i hone _
    rw [if_neg]
    intro hlength
    obtain ⟨c, hc⟩ := List.length_eq_one_iff.1 hlength
    exact hone c hc

theorem reads_pair (entry : Name × Literal) :
    ReadsEntry (.rule .tokenSpec) indent Solid (fun _ => TidyEntry) (pairEntry entry)
      (pairNode entry) := by
  intro before blank rest index hcolumn hblank hsolid
  obtain ⟨name, literal⟩ := entry
  have hread : Reads Rule.tokenSpec.body
      ⟨before, name.chars ++ ([' '] ++ (['='] ++ ([' '] ++ (('\'' :: (literal.body ++ ['\''])) ++
        ([] ++ ([';'] ++ (blank ++ rest))))))), index⟩ _ _ _ :=
    .lexeme_gap (lexes_identifier name.valid (stops_cons.2 rfl)) rfl (stops_cons.2 rfl)
      (.seq (.present (.lexeme_gap (lexes_mark .assign _) rfl (stops_cons.2 rfl)
          (.lexeme_last (lexes_stringLiteral _ literal.valid) rfl (stops_cons.2 rfl))) (by simp))
        (.lexeme_last (lexes_mark .semicolon _) hblank hsolid))
  refine ⟨_, _, (hread.rule rfl rfl).cast (by simp [pairEntry]) (by simp [pairEntry]), ?_,
    .inl ⟨_, _, tidyPair hcolumn name index _ ('\'' :: (literal.body ++ ['\''])) _ _ rfl rfl rfl⟩⟩
  rw [pairNode, literalNode, ← literalKind_plain literal.valid]
  rfl

theorem reads_imaginary (name : Name) :
    ReadsEntry (.rule .tokenSpec) indent Solid (fun _ => TidyEntry) (imaginaryEntry name)
      (imaginaryNode name) := by
  intro before blank rest index hcolumn hblank hsolid
  have hread : Reads Rule.tokenSpec.body
      ⟨before, name.chars ++ ([] ++ ([';'] ++ (blank ++ rest))), index⟩ _ _ _ :=
    .lexeme_gap (lexes_identifier name.valid (stops_cons.2 rfl)) rfl (stops_cons.2 rfl)
      (.seq (.skip (.inr (refuses_of_starts 2 _ rfl (by decide))))
        (.lexeme_last (lexes_mark .semicolon _) hblank hsolid))
  exact ⟨_, _, (hread.rule rfl rfl).cast (by simp [imaginaryEntry]) (by simp [imaginaryEntry]), rfl,
    .inr ⟨rfl, by simp [tokenAfter, hcolumn]⟩⟩

/-! ## Lists of entries -/

section Entries

variable {α : Type} {expr : Expr} {lead : List Char} {follow : List Char → Prop}
  {print : α → List Char} {expected : α → Node} {good : List Token → Node → Prop}

theorem joinLines_cons (line : List Char) (lines : List (List Char)) :
    joinLines (line :: lines) = line ++ '\n' :: joinLines lines := by
  simp [joinLines]

theorem joinLines_append (lines more : List (List Char)) :
    joinLines (lines ++ more) = joinLines lines ++ joinLines more := by
  simp [joinLines]

/-- Entries on lines of their own are read one after the other.  The first starts
after the `lead` of its line; the gap after each goes on to the start of the next. -/
theorem readsAll_lines
    (hentry : ∀ a, ReadsEntry expr lead.length follow good (print a) (expected a))
    (hfollow : ∀ a rest, follow (print a ++ rest)) (hlead : lead.all isSpace = true)
    (hbreak : '\n' ∉ lead) (a : α) (as : List α) {before rest : List Char} (index : Nat)
    (hcolumn : Position.sinceBreak before = lead.length) (hrest : follow rest) :
    ∃ (tokens : List Token) (nodes : List Node), ReadsAll expr
      ⟨before, print a ++ '\n' :: (joinLines (as.map (lead ++ print ·)) ++ rest), index⟩
      ⟨before ++ print a ++ '\n' :: joinLines (as.map (lead ++ print ·)), rest,
        index + tokens.length⟩ tokens (nodes.map .node) ∧
      nodes.map Node.bare = (a :: as).map expected ∧
      ∀ node ∈ nodes, ∃ own ⊆ tokens, good own node := by
  induction as generalizing a before index with
  | nil =>
      obtain ⟨tokens, node, hread, hbare, hgood⟩ :=
        @hentry a before ['\n'] rest index hcolumn rfl hrest
      have hall := ReadsAll.cons hread (by simp) (.nil _)
      refine ⟨tokens, [node], ?_, by simp [hbare], ?_⟩
      · convert hall using 1 <;> simp [joinLines]
      · intro other hother
        obtain rfl := List.mem_singleton.1 hother
        exact ⟨tokens, List.Subset.refl _, hgood⟩
  | cons b bs ih =>
      have hblank : ('\n' :: lead).all isSpace = true := by
        rw [List.all_cons, hlead]
        rfl
      obtain ⟨tokens, node, hread, hbare, hgood⟩ := @hentry a before ('\n' :: lead)
        (print b ++ '\n' :: (joinLines (bs.map (lead ++ print ·)) ++ rest)) index hcolumn hblank
        (hfollow b _)
      obtain ⟨more, nodes, hmore, hbares, hothers⟩ := ih b (index + tokens.length)
        (Position.sinceBreak_break hbreak)
      have hmoves : before.length < (before ++ print a ++ '\n' :: lead).length := by
        simp only [List.length_append, List.length_cons]
        omega
      have hall := ReadsAll.cons hread hmoves hmore
      refine ⟨tokens ++ more, node :: nodes, ?_, by simp [hbare, hbares], ?_⟩
      · convert hall using 1 <;> simp [joinLines_cons, Nat.add_assoc]
      · intro other hother
        rcases List.mem_cons.1 hother with rfl | hother
        · exact ⟨tokens, List.subset_append_left _ _, hgood⟩
        · obtain ⟨own, hown, hgood⟩ := hothers other hother
          exact ⟨own, fun _ h => List.mem_append_right _ (hown h), hgood⟩

end Entries

/-! ## Blocks -/

def blockBody (word : Keyword) (entry : Rule) : Expr :=
  .inOrder (Keyword.expr word)
    [gap, Mark.expr .leftBrace, gap, .many (.rule entry), Mark.expr .rightBrace, gap]

structure BlockRule (word : Keyword) (rule entry : Rule) (kind : Kind) : Prop where
  body_eq : rule.body = blockBody word entry
  grouping_eq : rule.grouping = true
  assemble_eq : ∀ items,
    assemble rule items = (Assemble.listing word kind items).map fun node => [.node node]
  refuses_close : ∀ rest, Refuses (.rule entry) ('\x7d' :: rest)
  prequel : ∀ {before rest : List Char} {index : Nat} {stop : Spot} {tokens : List Token}
    {items : List Item},
    Reads (.rule rule) ⟨before, word.text.toList ++ '\x7b' :: rest, index⟩ stop tokens items →
    Reads (.rule .prequel) ⟨before, word.text.toList ++ '\x7b' :: rest, index⟩ stop tokens items

theorem blockRule_options : BlockRule .options .optionsSpec .option .options where
  body_eq := rfl
  grouping_eq := rfl
  assemble_eq _ := rfl
  refuses_close rest := refuses_of_starts 2 rest rfl (by decide)
  prequel h := .rule (.first h) rfl rfl

theorem blockRule_tokens : BlockRule .tokens .tokensSpec .tokenSpec .tokens where
  body_eq := rfl
  grouping_eq := rfl
  assemble_eq _ := rfl
  refuses_close rest := refuses_of_starts 2 rest rfl (by decide)
  prequel := by
    intro before rest index stop tokens items h
    have hother (word : Keyword) (hne : Keyword.tokens.text.toList ≠ word.text.toList) :
        Refuses word.expr (Keyword.tokens.text.toList ++ '\x7b' :: rest) :=
      refuses_keyword Keyword.tokens.isName_text hne (stops_cons.2 (by decide))
    have hoptions : Refuses (.rule .optionsSpec) _ := .rule (hother .options (by decide)).seq
    have himports : Refuses (.rule .importSpec) _ := .rule (hother .imports (by decide)).seq
    exact .rule (.second hoptions (.second himports (.first h))) rfl rfl

section Blocks

variable {α : Type} {print : α → List Char} {expected : α → Node} {word : Keyword}
  {rule entry : Rule} {kind : Kind}

theorem joinLines_blockLines (word : String) (print : α → List Char) (a : α) (as : List α) :
    joinLines (blockLines word ((a :: as).map print)) =
      word.toList ++ '\x7b' :: ('\n' :: indentation ++ (print a ++
        '\n' :: (joinLines (as.map (indentation ++ print ·)) ++ ['\x7d', '\n']))) := by
  have hopen : (word ++ "\x7b").toList = word.toList ++ ['\x7b'] := by simp
  have hclose : "\x7d".toList = ['\x7d'] := rfl
  have hmap : (as.map print).map (indentation ++ ·) = as.map (indentation ++ print ·) := by
    simp [Function.comp_def]
  rw [blockLines, if_neg (by simp), List.map_cons, List.map_cons, hopen, hclose, hmap,
    List.cons_append, List.cons_append, joinLines_cons, joinLines_cons, joinLines_append,
    joinLines_cons]
  simp [joinLines]

theorem reads_block (hrule : BlockRule word rule entry kind)
    (hentry : ∀ a,
      ReadsEntry (.rule entry) indent Solid (fun _ => TidyEntry) (print a) (expected a))
    (hfollow : ∀ a rest, Solid (print a ++ rest)) (a : α) (as : List α)
    {before rest : List Char} (index : Nat) (hsolid : Solid rest) :
    ∃ tokens node, Reads (.rule .prequel)
      ⟨before, joinLines (blockLines word.text ((a :: as).map print)) ++ rest, index⟩
      ⟨before ++ joinLines (blockLines word.text ((a :: as).map print)), rest,
        index + tokens.length⟩ tokens [.node node] ∧
      node.bare = { kind, text := word.text, children := (a :: as).map expected } ∧
      ∀ child ∈ node.children, TidyEntry child := by
  obtain ⟨tokens, nodes, hentries, hbares, htidy⟩ := @readsAll_lines α (.rule entry) indentation
    Solid print expected _ hentry hfollow rfl (by decide) a as
    (before ++ word.text.toList ++ [] ++ ['\x7b'] ++ '\n' :: indentation)
    (['\x7d'] ++ (['\n'] ++ rest)) (index + 1 + 1) (Position.sinceBreak_break (by decide))
    (stops_cons.2 rfl)
  have hbody : Reads (blockBody word entry)
      ⟨before, word.text.toList ++ ([] ++ (['\x7b'] ++ ('\n' :: indentation ++
        (print a ++ '\n' :: (joinLines (as.map (indentation ++ print ·)) ++
          (['\x7d'] ++ (['\n'] ++ rest))))))), index⟩ _ _ _ :=
    .lexeme_gap (lexes_keyword word (stops_cons.2 (by decide))) rfl (stops_cons.2 rfl)
      (.lexeme_gap (lexes_mark .leftBrace _) rfl (hfollow a _)
        (.seq (hentries.many (.inr (hrule.refuses_close _)))
          (.lexeme_last (lexes_mark .rightBrace _) rfl hsolid)))
  rw [← hrule.body_eq] at hbody
  let opening := tokenAfter before index (.keyword word) word.text.toList
  have hread := hrule.prequel (hbody.rule hrule.grouping_eq ((hrule.assemble_eq _).trans
    (congrArg _ (show _ = some ((Node.ofToken kind opening).addChildren nodes) by
      simp [Assemble.listing, Item.tokensOf, tokenAfter, opening]))))
  refine ⟨_, _, hread.cast ?_ ?_, ?_, ?_⟩
  · rw [joinLines_blockLines]
    simp
  · rw [Spot.mk.injEq, joinLines_blockLines]
    refine ⟨by simp, rfl, ?_⟩
    simp only [List.length_append, List.length_cons, List.length_nil]
    omega
  · rw [Node.bare_eq]
    simp [hbares, opening, tokenAfter]
  · intro child hchild
    obtain ⟨own, -, hgood⟩ := htidy child (by simpa using hchild)
    exact hgood

theorem readsAll_block (hrule : BlockRule word rule entry kind)
    (hentry : ∀ a,
      ReadsEntry (.rule entry) indent Solid (fun _ => TidyEntry) (print a) (expected a))
    (hfollow : ∀ a rest, Solid (print a ++ rest)) (as : List α)
    {before rest : List Char} (index : Nat) (hsolid : Solid rest) :
    ∃ (tokens : List Token) (nodes : List Node), ReadsAll (.rule .prequel)
      ⟨before, joinLines (blockLines word.text (as.map print)) ++ rest, index⟩
      ⟨before ++ joinLines (blockLines word.text (as.map print)), rest,
        index + tokens.length⟩ tokens (nodes.map .node) ∧
      nodes.map Node.bare = blockNodes kind word.text (as.map expected) ∧
      ∀ node ∈ nodes, ∀ child ∈ node.children, TidyEntry child := by
  cases as with
  | nil =>
      refine ⟨[], [], ?_, rfl, by simp⟩
      convert ReadsAll.nil _ using 1
      · simp [blockLines, joinLines]
      · rfl
  | cons a as =>
      obtain ⟨tokens, node, hread, hbare, htidy⟩ :=
        @reads_block _ _ _ _ _ _ _ hrule hentry hfollow a as before rest index hsolid
      have hmoves : before.length <
          (before ++ joinLines (blockLines word.text ((a :: as).map print))).length := by
        rw [joinLines_blockLines, List.length_append, List.length_append, List.length_cons]
        omega
      have hall := ReadsAll.cons hread hmoves (.nil _)
      refine ⟨tokens, [node], ?_, ?_, by simpa using htidy⟩
      · convert hall using 1
        · simp
        · rfl
      · simp [hbare, blockNodes]

end Blocks

end Layout

end GrammarLint
