import GrammarLint.Proofs.Checkable
import GrammarLint.Proofs.LineBreaks
import GrammarLint.Proofs.NodeLines
import GrammarLint.Proofs.WholeFiles

/-!
# A rule after a file

A rule that is written after a file that ends its line is read as it is on its own, and
the file is read as before: no token and no comment of the file goes on into the rule, and
the rule is not taken for a part of the last rule of the file.
-/

namespace GrammarLint

open Grammar Text

namespace Grammar

/-! ## The file before the rule -/

theorem Terminal.not_endsLine {type : Terminal} {chars rest : List Char}
    (h : type.after? (chars ++ rest) = some rest) : ¬EndsLine chars := by
  intro hends
  have hne := Terminal.ne_nil_of_after? h
  obtain ⟨trees, hyields, rfl⟩ := Terminal.exists_yields h 0
  by_cases htype : type ∈ blockTypes
  · obtain ⟨enclosure, rfl⟩ := Enclosure.exists_terminal htype
    obtain ⟨inner, hinner⟩ := enclosure.block_shape hyields
    have hclosing := hends enclosure.closing (by
      rw [hinner]
      exact List.getLast?_concat)
    cases enclosure <;> cases hclosing
  · exact Terminal.oneLine htype hyields (hends.break_mem hne)

theorem EndsLine.afterTrivia {chars : List Char} (h : EndsLine chars) :
    EndsLine (afterTrivia chars) :=
  h.suffix ⟨_, scanTrivia_split 0 chars⟩

theorem afterTrivia_append {chars more : List Char} (hends : EndsLine chars)
    (hsolid : Solid (afterTrivia chars)) (hmore : Solid more) :
    afterTrivia (chars ++ more) = afterTrivia chars ++ more := by
  obtain ⟨gap, hgap, htrivia⟩ := exists_gap chars
  have hbefore : Trivia gap (afterTrivia chars ++ more) := by
    refine htrivia.before hsolid fun hnil => .inr ?_
    rw [hnil, List.append_nil] at hgap
    exact hgap ▸ hends
  have hfront : Solid (afterTrivia chars ++ more) :=
    @Stops.resume _ _ [] _ (by rwa [List.append_nil]) hmore
  calc afterTrivia (chars ++ more)
      = afterTrivia (gap ++ (afterTrivia chars ++ more)) := by
        rw [← List.append_assoc, ← hgap]
    _ = afterTrivia chars ++ more := afterTrivia_gap hbefore hfront

section File

variable {lexemes : List Lexeme} {chars : List Char} {more : List Char}

theorem Lexed.lined_append (h : Lexed Enters [] lexemes chars) (hends : EndsLine chars)
    (hcomment : ∀ lexeme ∈ lexemes, lexeme.type = .actionBlock → ¬['/', '*'] <:+: lexeme.chars)
    (hsolid : Solid more) (hcolon : (Terminal.mark .colon).after? more = none) :
    Lined (fun first second => second = first ++ more) [] more lexemes chars (chars ++ more) := by
  induction h with
  | nil => exact .nil
  | @cons type front rest lexemes hafter hnext henters hmore ih =>
      rw [List.forall_mem_cons] at hcomment
      have hrest : EndsLine rest := hends.suffix (List.suffix_append _ _)
      have hne : rest ≠ [] := by
        rintro rfl
        rw [List.append_nil] at hends
        exact Terminal.not_endsLine hafter hends
      have hlined := ih hrest.afterTrivia hcomment.2
      rw [← afterTrivia_append hrest hmore.solid_end hsolid] at hlined
      rw [List.append_assoc]
      refine .token hafter (fun hblock => ?_) hnext henters ?_ hcolon (List.append_assoc _ _ _).symm
        hlined
      · exact Terminal.after?_append hblock hafter (hrest.break_mem hne) hcomment.1 more
      · have hresumes := Resumes.of_append hne [] more
        rwa [List.append_nil] at hresumes

end File

/-! ## The rule -/

section Rule

variable {chars : List Char} {tree : Tree}

theorem Accepts.rule_lexed (h : Accepts .ruleSpec chars tree) :
    Lexed Enters [] (Tree.allLexemes [tree]) chars ∧ Fronted (Tree.allLexemes [tree]) ∧
      Tree.allLexemes [tree] ≠ [] := by
  obtain ⟨next, hyields, hend⟩ := h
  have hlexed := hyields.lexed (by decide : (Expr.rule .ruleSpec).turn true = some true)
    (by decide : (Expr.rule .ruleSpec).check (.next [] true) = true) nofun (.inr ⟨rfl, trivial⟩)
    (.nil : Lexed Enters next.rest [] next.rest)
  have hfront := hyields.fronted []
  rw [List.append_nil] at hlexed hfront
  refine ⟨hend ▸ hlexed, hfront, fun hnone => ?_⟩
  have hopens := hyields.opens (by decide : (Expr.rule .ruleSpec).turn true = some true) 6
  cases (hopens.none hnone).1

theorem Accepts.rule_solid (h : Accepts .ruleSpec chars tree) : Solid chars := by
  obtain ⟨hlexed, -, hne⟩ := h.rule_lexed
  exact hlexed.solid hne

theorem Accepts.rule_refuses (h : Accepts .ruleSpec chars tree) :
    (∀ expr ∈ closers, Refuses expr chars) ∧ (Terminal.mark .colon).after? chars = none := by
  obtain ⟨hlexed, hfront, hne⟩ := h.rule_lexed
  obtain ⟨lexeme, lexemes, hlexemes⟩ := List.exists_cons_of_ne_nil hne
  rw [hlexemes] at hlexed hfront
  refine ⟨hlexed.refuses_closers hfront, refuses_token.1 (hlexed.refuses_at ?_)⟩
  have hmodifiers : ∀ type ∈ modifiers.map Terminal.keyword,
      (Terminal.mark .colon).apart type = true := by decide
  rcases hfront.cases with htype | ⟨htype, -⟩
  · exact hmodifiers _ htype
  · rw [htype]
    rfl

theorem Lexed.lined_self {last : List Char} {lexemes : List Lexeme}
    (h : Lexed Enters last lexemes chars) : Lined Eq last last lexemes chars chars := by
  induction h with
  | nil => exact .nil
  | cons hafter hnext henters _ ih =>
      exact .cons hafter hafter hnext henters (fun _ hnone => hnone) (fun _ hrefuses => hrefuses)
        rfl ih

def SimilarAfter (count : Nat) (chars : List Char) : List Tree → List Tree → Prop :=
  Similar (Located Eq chars.length (count + chars.length)) Eq

def SimilarBefore (chars more : List Char) : List Tree → List Tree → Prop :=
  Similar (Located (fun first second => second = first ++ more) chars.length
    (chars ++ more).length) Eq

theorem Accepts.rule_at (h : Accepts .ruleSpec chars tree) (offset : Nat) :
    ∃ others next, Yields (.rule .ruleSpec) ⟨offset, chars⟩ (some (others, next)) ∧
      next.rest = [] ∧ SimilarAfter offset chars [tree] others := by
  obtain ⟨hlexed, -, -⟩ := h.rule_lexed
  obtain ⟨next, hyields, hend⟩ := h
  have hstop : Lined.Closes Eq [] [] Fronted := Lined.closes_fronted refuses_closers_nil
  rw [← List.append_nil (Tree.allLexemes [tree])] at hlexed
  have hlined : Lined Eq [] [] (Tree.allLexemes [tree] ++ [])
      (settled true (Cursor.start chars).rest) (settled true (⟨offset, chars⟩ : Cursor).rest) :=
    hlexed.lined_self
  have haligned : Aligned chars.length (offset + chars.length) (Cursor.start chars)
      ⟨offset, chars⟩ := ⟨Nat.zero_add _, rfl⟩
  obtain ⟨others, later, hother, hsimilar, hlined, -⟩ := hyields.retold hstop
    (by decide : (Expr.rule .ruleSpec).turn true = some true)
    (by decide : (Expr.rule .ruleSpec).check (.next [] true) = true) (.inr ⟨rfl, .none⟩)
    hlined haligned
  exact ⟨others, later, hother, hlined.ends.2, hsimilar⟩

end Rule

end Grammar

/-! ## Places -/

namespace Text

theorem Position.sinceBreak_after {before : List Char} (h : EndsLine before) (chars : List Char) :
    sinceBreak (before ++ chars) = sinceBreak chars := by
  induction chars using List.reverseRecOn with
  | nil =>
      rw [List.append_nil]
      induction before using List.reverseRecOn with
      | nil => rfl
      | append_singleton before c _ =>
          rw [sinceBreak_append_singleton, if_pos (h c List.getLast?_concat)]
          rfl
  | append_singleton chars c ih =>
      rw [← List.append_assoc, sinceBreak_append_singleton, sinceBreak_append_singleton, ih]

variable {chars : List Char} {offset : Nat}

theorem LineIndex.locate_append (h : offset ≤ chars.length) (more : List Char) :
    (ofChars (chars ++ more)).locate offset = (ofChars chars).locate offset := by
  have hmore : offset ≤ (chars ++ more).length := by
    rw [List.length_append]
    exact Nat.le_add_right_of_le h
  rw [locate_eq_ofOffset h, locate_eq_ofOffset hmore, Position.ofOffset,
    List.take_append_of_le_length h]
  rfl

theorem LineIndex.locate_after {before : List Char} (hends : EndsLine before)
    (h : offset ≤ chars.length) :
    (ofChars (before ++ chars)).locate (before.length + offset) =
      ⟨((ofChars chars).locate offset).line + before.count '\n',
        ((ofChars chars).locate offset).column⟩ := by
  have hmore : before.length + offset ≤ (before ++ chars).length := by
    rw [List.length_append]
    exact Nat.add_le_add_left h _
  rw [locate_eq_ofOffset h, locate_eq_ofOffset hmore, Position.ofOffset, Position.ofOffset,
    List.take_length_add_append, Position.sinceBreak_after hends, List.count_append]
  simp only [Position.mk.injEq, and_true]
  omega

end Text

/-! ## Views -/

def View.later (lines tokens : Nat) : View :=
  ⟨id, (· + lines), id, (· + tokens)⟩

/-- The same view, but nodes that have no place yet keep none. -/
def View.laterPlaced (lines tokens : Nat) : View :=
  ⟨id, fun line => if line = 0 then 0 else line + lines, id, (· + tokens)⟩

theorem View.plain_laterPlaced (lines tokens : Nat) : (laterPlaced lines tokens).Plain :=
  ⟨rfl, rfl, rfl, rfl, rfl⟩

section Tokens

variable {chars : List Char} {offset : Nat}

theorem Outline.tokenOf_append (h : offset ≤ chars.length) (more : List Char) (type : Terminal)
    (taken : List Char) (index : Nat) :
    tokenOf (LineIndex.ofChars (chars ++ more)) type offset taken index =
      tokenOf (LineIndex.ofChars chars) type offset taken index := by
  simp only [tokenOf, LineIndex.locate_append h]

theorem Outline.tokenOf_later {before : List Char} (hends : EndsLine before)
    (h : offset ≤ chars.length) (type : Terminal) (taken : List Char) (index tokens : Nat) :
    tokenOf (LineIndex.ofChars (before ++ chars)) type (before.length + offset) taken
        (index + tokens) =
      (tokenOf (LineIndex.ofChars chars) type offset taken index).under
        (.later (before.count '\n') tokens) := by
  simp [tokenOf, LineIndex.locate_after hends h, Token.under, View.later]

theorem Outline.tokenOf_laterPlaced (h : offset ≤ chars.length) (type : Terminal)
    (taken : List Char) (index lines tokens : Nat) :
    (tokenOf (LineIndex.ofChars chars) type offset taken index).under (.laterPlaced lines tokens) =
      (tokenOf (LineIndex.ofChars chars) type offset taken index).under (.later lines tokens) := by
  have hline : ((LineIndex.ofChars chars).locate offset).line ≠ 0 := by
    rw [LineIndex.locate_eq_ofOffset h]
    exact Nat.succ_ne_zero _
  simp [tokenOf, Token.under, View.later, View.laterPlaced, hline]

end Tokens

namespace Node

variable {lines tokens : Nat}

mutual

theorem under_laterPlaced : (node : Node) →
    (∀ below ∈ (node.under (.laterPlaced lines tokens)).preorder, below.line ≠ 0) →
    node.under (.laterPlaced lines tokens) = node.under (.later lines tokens)
  | ⟨kind, text, line, column, index, children⟩, h => by
      rw [preorder_eq, List.forall_mem_cons] at h
      have hline : line ≠ 0 := by
        rintro rfl
        exact h.1 rfl
      have hchildren := allUnder_laterPlaced children (by rw [allUnder_eq]; simpa using h.2)
      rw [under, under, hchildren]
      simp [View.later, View.laterPlaced, View.place, hline]

theorem allUnder_laterPlaced : (nodes : List Node) →
    (∀ below ∈ (allUnder (.laterPlaced lines tokens) nodes).flatMap preorder, below.line ≠ 0) →
    allUnder (.laterPlaced lines tokens) nodes = allUnder (.later lines tokens) nodes
  | [], _ => rfl
  | node :: nodes, h => by
      rw [allUnder, List.flatMap_cons, List.forall_mem_append] at h
      rw [allUnder, allUnder, under_laterPlaced node h.1, allUnder_laterPlaced nodes h.2]

end

end Node

/-! ## Outlines -/

section Similar

variable {before chars : List Char} {trees others : List Tree}

theorem Outline.ofTrees_append_text {more : List Char}
    (h : SimilarBefore chars more trees others) (index : Nat) :
    ofTrees (LineIndex.ofChars (chars ++ more)) index others =
      ofTrees (LineIndex.ofChars chars) index trees := by
  obtain ⟨hparts, hnext⟩ := @Similar.outline _ _ _ _ h (LineIndex.ofChars chars)
    (LineIndex.ofChars (chars ++ more)) .same .same 0
    (fun type offset place taken found index hplaced htaken => by
      obtain ⟨first, _, rfl, hfirst, hsecond⟩ := hplaced
      rw [List.length_append, List.length_append] at hsecond
      obtain rfl : place = offset := by omega
      rw [← htaken, tokenOf_append (by omega)]
      rfl) index
  rw [allUnder_same, allUnder_same] at hparts
  exact Prod.ext hparts.symm hnext

theorem Outline.ofTrees_after (hends : EndsLine before)
    (h : SimilarAfter before.length chars trees others)
    {tokens : Nat} {view : View}
    (hview : ∀ type offset taken index, offset ≤ chars.length →
      (tokenOf (LineIndex.ofChars chars) type offset taken index).under view =
        (tokenOf (LineIndex.ofChars chars) type offset taken index).under
          (.later (before.count '\n') tokens)) :
    (ofTrees (LineIndex.ofChars (before ++ chars)) tokens others).1 =
      allUnder view (ofTrees (LineIndex.ofChars chars) 0 trees).1 := by
  obtain ⟨hparts, -⟩ := @Similar.outline _ _ _ _ h (LineIndex.ofChars chars)
    (LineIndex.ofChars (before ++ chars)) view .same tokens
    (fun type offset place taken found index hplaced htaken => by
      obtain ⟨first, _, rfl, hfirst, hsecond⟩ := hplaced
      obtain rfl : place = before.length + offset := by omega
      rw [← htaken, tokenOf_later hends (by omega), hview _ _ _ _ (by omega)]
      rfl) 0
  rw [allUnder_same, Nat.zero_add] at hparts
  exact hparts.symm

end Similar

theorem Outline.outlineOf_file {chars : List Char} {trees : List Tree} :
    outlineOf chars (.node .grammarFile 0 trees) =
      [.group .grammarFile (ofTrees (LineIndex.ofChars chars) 0 trees).1] := by
  rw [outlineOf, ← ofTrees_singleton, ofTrees_group _ rfl]

theorem Grammar.ReadsFile.next_index {chars : List Char} {gaps head sections rules : List Tree}
    {start body first next : Cursor}
    (h : ReadsFile chars gaps head sections rules start body first next) :
    let outline :=
      Outline.ofTrees (LineIndex.ofChars chars) 0 (gaps ++ (head ++ (sections ++ rules)))
    outline.2 = (Outline.allTokens outline.1).length := by
  have hyields := readsFile_iff.2 ⟨gaps, head, sections, rules, start, body, first, h, rfl⟩
  have hnext := (hyields.outlined rfl (List.nil_append chars).symm rfl 0).next_eq
  rw [Outline.ofTrees_group _ rfl, Outline.allTokens_group, Nat.zero_add] at hnext
  exact hnext

theorem Outline.outlineOf_append {chars more : List Char} {trees others rules : List Tree}
    {tree : Tree} (hends : EndsLine chars)
    (hfile : SimilarBefore chars more trees others)
    (hrule : SimilarAfter chars.length more [tree] rules)
    {tokens : Nat} (htokens : (ofTrees (LineIndex.ofChars chars) 0 trees).2 = tokens) {view : View}
    (hview : ∀ type offset taken index, offset ≤ more.length →
      (tokenOf (LineIndex.ofChars more) type offset taken index).under view =
        (tokenOf (LineIndex.ofChars more) type offset taken index).under
          (.later (chars.count '\n') tokens)) :
    outlineOf (chars ++ more) (.node .grammarFile 0 (others ++ rules)) =
      [.group .grammarFile ((ofTrees (LineIndex.ofChars chars) 0 trees).1 ++
        allUnder view (outlineOf more tree))] := by
  rw [outlineOf_file, ofTrees_append, ofTrees_append_text hfile, htokens,
    ofTrees_after hends hrule hview, ofTrees_singleton]
  rfl

theorem Grammar.Accepts.rule_node {chars : List Char} {tree : Tree}
    (h : Accepts .ruleSpec chars tree) :
    ∃ node, Outline.itemsOf (outlineOf chars tree) = some [.node node] ∧ node.kind = .rule := by
  obtain ⟨next, hyields, -⟩ := h
  obtain ⟨items, hitems, node, hnode, rfl⟩ :=
    @Yields.admits (Kinded fun _ _ _ => True) (fun _ _ _ hnode => hnode.2)
      (fun _ _ _ hnode => ⟨trivial, hnode.kind_mem⟩) _ _ _ _ _ hyields rfl 0
  rw [Outline.ofTrees_singleton] at hitems
  exact ⟨node, hitems, List.mem_singleton.1 hnode.2⟩

theorem Outline.itemsOf_file {parts more : List Outline} {root child : Node} {rest : List Item}
    (h : itemsOf [.group .grammarFile parts] = some (.node root :: rest))
    (hmore : itemsOf more = some [.node child]) :
    itemsOf [.group .grammarFile (parts ++ more)] = some [.node (root.addChild child)] := by
  simp only [itemsOf, items, itemsOf_append, hmore] at h ⊢
  cases hparts : itemsOf parts with
  | none => simp [hparts] at h
  | some found =>
      simp only [hparts, assemble, Assemble.grammarFile] at h
      simp only [assemble, Assemble.grammarFile]
      cases hnodes : Item.nodes found with
      | nil => simp [hnodes] at h
      | cons head sections =>
          simp [hnodes] at h
          obtain ⟨rfl, -⟩ := h
          simp [hnodes, Node.addChild, Node.addChildren]

/-! ## Files with rules -/

def Grammar.sectionParts : List Rule :=
  [.grammarHead, .grammarType, .prequel, .optionsSpec, .option, .optionValue, .importSpec,
    .delegate, .tokensSpec, .tokenSpec, .grammarScope, .actionSpec, .trivia, .actionChunk,
    .actionNested, .actionString, .actionComment, .actionText, .actionQuote, .argChunk, .argNested,
    .argText]

def Grammar.sectionRules : List Rule :=
  sectionParts ++ (Terminal.all.erase (.mark .colon)).map .terminal

theorem Grammar.within_sections {expr : Expr} (h : expr.rules ⊆ sectionRules) :
    expr.Within sectionRules :=
  ⟨h, by decide⟩

theorem Grammar.colon_notMem_sections {expr : Expr} (hrules : expr.rules ⊆ sectionRules)
    (hvisible : expr.visible = true) {cursor next : Cursor} {trees : List Tree}
    (h : Yields expr cursor (some (trees, next))) {chars : List Char} :
    ⟨.mark .colon, chars⟩ ∉ Tree.allLexemes trees := by
  intro hcolon
  have hmember := h.type_mem hvisible (within_sections hrules) _ hcolon
  exact absurd hmember (by decide : Rule.terminal (.mark .colon) ∉ sectionRules)

theorem Source.rule_lexemes {text : String} {file : Option String} {source : Source}
    (h : Source.parse text file = .ok source)
    (hrule : ∃ child ∈ source.root.children, child.kind = .rule)
    {gaps head sections rules : List Tree} {start body first next : Cursor}
    (hreads : ReadsFile text.toList gaps head sections rules start body first next)
    (hlexemes : source.tokens.toList.map Token.lexeme = partLexemes head sections rules) :
    Tree.allLexemes rules ≠ [] := by
  obtain ⟨child, hchild, hkind⟩ := hrule
  obtain ⟨⟨colon, hcolon, -, htype, -⟩, -⟩ :=
    Source.holds_root inductive_delimited h child hchild hkind
  have hmember : colon.lexeme ∈ partLexemes head sections rules :=
    hlexemes ▸ List.mem_map_of_mem hcolon
  rw [Token.lexeme, htype, partLexemes, List.mem_append, List.mem_append] at hmember
  rcases hmember with hhead | hsections | hrules
  · exact absurd hhead (colon_notMem_sections (by decide) rfl hreads.head)
  · exact absurd hsections (colon_notMem_sections (by decide) rfl hreads.sections)
  · exact List.ne_nil_of_mem hrules

theorem Grammar.ReadsFile.append {chars more : List Char} {gaps head sections rules : List Tree}
    {start body first next : Cursor} {tree : Tree}
    (h : ReadsFile chars gaps head sections rules start body first next) (hend : next.rest = [])
    (hends : EndsLine chars) (hrules : Tree.allLexemes rules ≠ [])
    (hcomment : ∀ lexeme ∈ partLexemes head sections rules, lexeme.type = .actionBlock →
      ¬['/', '*'] <:+: lexeme.chars) (hrule : Accepts .ruleSpec more tree) :
    ∃ others parts, Accepts .grammarFile (chars ++ more) (.node .grammarFile 0 (others ++ parts)) ∧
      SimilarBefore chars more (gaps ++ (head ++ (sections ++ rules))) others ∧
      SimilarAfter chars.length more [tree] parts := by
  obtain ⟨hclosers, hcolon⟩ := hrule.rule_refuses
  have hlined : Lined (fun first second => second = first ++ more) [] more
      (partLexemes head sections rules) (afterTrivia chars) (afterTrivia (chars ++ more)) := by
    have hlexed := h.lexed
    rw [hend] at hlexed
    rw [afterTrivia_append hends hlexed.solid_end hrule.rule_solid]
    exact hlexed.lined_append hends.afterTrivia hcomment hrule.rule_solid hcolon
  obtain ⟨parts, stop, hparts, hstop, hsimilar⟩ := hrule.rule_at chars.length
  have hlast : ∀ later : Cursor, later.rest = more →
      later.offset + later.rest.length = (chars ++ more).length →
        Yields (.many (.rule .ruleSpec)) later (some (parts, stop)) := by
    rintro ⟨offset, rest⟩ rfl hlength
    rw [List.length_append] at hlength
    obtain rfl := Nat.add_right_cancel hlength
    have hround := Yields.manyMore (hparts.rest_ne_nil rfl) hparts (hparts.offset_ne rfl)
      (.manyAtEnd hstop)
    rwa [List.append_nil] at hround
  obtain ⟨others, hother, hsimilar'⟩ := h.retold hlined hclosers
    (fun hnone => absurd hnone hrules) hlast
  exact ⟨others, parts, ⟨stop, hother, hstop⟩, hsimilar', hsimilar⟩

/-! ## Sources -/

theorem Source.line_ne_zero {text : String} {file : Option String} {source : Source}
    (h : Source.parse text file = .ok source) {child : Node}
    (hchild : child ∈ source.root.children) : ∀ below ∈ child.preorder, below.line ≠ 0 := by
  intro below hbelow
  have hpositive := (Source.onLines h below (Node.mem_preorder_of_child hchild hbelow)).positive
  omega

/-- A rule is local to where it stands.  After a file that has a rule, that ends its line, and
in whose actions no comment goes over lines, any text that is a rule is read as it is on its
own, and the file as before: the rule has later lines and tokens, and is the last child. -/
theorem Source.parse_append_rule {text rule : String} {file : Option String} {source : Source}
    (h : Source.parse text file = .ok source) (hends : text.toList.getLast? = some '\n')
    (hrules : ∃ child ∈ source.root.children, child.kind = .rule)
    (hcomment : ∀ token ∈ source.tokens, token.type = .actionBlock →
      ¬['/', '*'] <:+: token.text.toList)
    {tree : Tree} (htree : Grammar.parse .ruleSpec rule.toList = .ok tree) :
    ∃ node, Outline.itemsOf (outlineOf rule.toList tree) = some [.node node] ∧
      node.kind = .rule ∧
      let later := View.later (text.toList.count '\n') source.tokens.size
      Source.parse (text ++ rule) file = .ok
        ⟨source.root.addChild (node.under later),
          source.tokens ++
            ((Outline.allTokens (outlineOf rule.toList tree)).map (Token.under later)).toArray,
          file⟩ := by
  have hends : EndsLine text.toList := fun c hc => (Option.some.inj (hends.symm.trans hc)).symm
  have hrule := (Grammar.parse_eq_ok_iff _ _ _).1 htree
  obtain ⟨node, hnode, hkind⟩ := hrule.rule_node
  refine ⟨node, hnode, hkind, ?_⟩
  intro later
  obtain ⟨gaps, head, sections, rules, start, body, first, next, hreads, hend, hsource, hlexemes⟩ :=
    Source.readsFile h
  have hsafe : ∀ lexeme ∈ partLexemes head sections rules, lexeme.type = .actionBlock →
      ¬['/', '*'] <:+: lexeme.chars := by
    rw [← hlexemes, List.forall_mem_map]
    exact fun token htoken => hcomment token (Array.mem_toList_iff.1 htoken)
  obtain ⟨others, parts, haccepts, hfile, hafter⟩ :=
    hreads.append hend hends (Source.rule_lexemes h hrules hreads hlexemes) hsafe hrule
  obtain ⟨root, rest, hitems, hsame⟩ := Source.ofTree_eq_some_iff.1 hsource
  rw [Outline.outlineOf_file] at hitems hsame
  obtain ⟨hroot, harray⟩ : source.root = root ∧ source.tokens = (Outline.allTokens
      (Outline.ofTrees (LineIndex.ofChars text.toList) 0
        (gaps ++ (head ++ (sections ++ rules)))).1).toArray := by
    rw [hsame, Outline.allTokens_group]
    exact ⟨rfl, rfl⟩
  have htokens : (Outline.ofTrees (LineIndex.ofChars text.toList) 0
      (gaps ++ (head ++ (sections ++ rules)))).2 = source.tokens.size := by
    rw [hreads.next_index, harray, List.size_toArray]
  have houtline := fun view =>
    @Outline.outlineOf_append _ _ _ _ _ _ hends hfile hafter _ htokens view
  rw [← String.toList_append] at haccepts houtline
  have hitems' : Outline.itemsOf (outlineOf (text ++ rule).toList
      (.node .grammarFile 0 (others ++ parts))) = some [.node (root.addChild (node.under
        (.laterPlaced (text.toList.count '\n') source.tokens.size)))] := by
    rw [houtline _ fun type offset taken index hoffset =>
      Outline.tokenOf_laterPlaced hoffset type taken index _ _]
    refine Outline.itemsOf_file hitems ?_
    rw [Outline.itemsOf_under (View.plain_laterPlaced _ _) _
      (Outline.allSuited_of_text (fun _ => rfl) _), hnode]
    rfl
  have hparse := Source.parse_of_items haccepts hitems' file
  have hplaced : node.under (.laterPlaced (text.toList.count '\n') source.tokens.size) =
      node.under later := by
    refine node.under_laterPlaced (Source.line_ne_zero hparse ?_)
    exact List.mem_append_right _ List.mem_cons_self
  rw [hparse, houtline later fun _ _ _ _ _ => rfl, hplaced, Outline.allTokens_group,
    Outline.allTokens_append, Outline.allTokens_under, hroot, harray, List.append_toArray]

/-- A grammar with an open quote in a block and a comment on its last line. -/
def Grammar.EndsLine.sampleText : String :=
  "grammar g;\na[int ' i]\n  : b \x7b f(); // it's\n  \x7d\n  ; // last\n"

/-- A rule named as the keyword that starts an exception clause. -/
def Grammar.EndsLine.sampleRule : String :=
  "catch\n  : c ^(D 'e')\n  |\n  ;"

theorem Source.parse_append_rule_sample :
    ∃ source tree, Source.parse EndsLine.sampleText none = .ok source ∧
      EndsLine.sampleText.toList.getLast? = some '\n' ∧
      (∃ child ∈ source.root.children, child.kind = .rule) ∧
      (∀ token ∈ source.tokens, token.type = .actionBlock → ¬['/', '*'] <:+: token.text.toList) ∧
      Grammar.parse .ruleSpec EndsLine.sampleRule.toList = .ok tree ∧
      ∃ node, Outline.itemsOf (outlineOf EndsLine.sampleRule.toList tree) = some [.node node] ∧
        node.kind = .rule ∧
        let later := View.later (EndsLine.sampleText.toList.count '\n') source.tokens.size
        Source.parse (EndsLine.sampleText ++ EndsLine.sampleRule) none = .ok
          ⟨source.root.addChild (node.under later), source.tokens ++
            ((Outline.allTokens (outlineOf EndsLine.sampleRule.toList tree)).map
              (Token.under later)).toArray, none⟩ := by
  have hfits : (Source.parse EndsLine.sampleText none).toOption.any (fun source =>
      source.root.children.any (·.kind == .rule) && source.tokens.toList.all fun token =>
        token.type != .actionBlock || !token.text.toList.contains '*') = true := by
    decide +kernel
  have hrule : (Grammar.parse .ruleSpec EndsLine.sampleRule.toList).toOption.isSome = true := by
    decide +kernel
  obtain ⟨source, hsource⟩ := Source.exists_of_isSome (Option.isSome_of_any hfits)
  simp only [hsource, Except.toOption, Option.any_some, Bool.and_eq_true, List.any_eq_true,
    beq_iff_eq, List.all_eq_true, Bool.or_eq_true, bne_iff_ne, Bool.not_eq_true',
    List.contains_eq_mem, decide_eq_false_iff_not, Array.mem_toList_iff] at hfits
  obtain ⟨hrules, hstars⟩ := hfits
  have hcomment : ∀ token ∈ source.tokens, token.type = .actionBlock →
      ¬['/', '*'] <:+: token.text.toList := fun token htoken htype hinside =>
    (hstars token htoken).resolve_left (not_not.2 htype) (hinside.subset (by simp))
  cases htree : Grammar.parse .ruleSpec EndsLine.sampleRule.toList with
  | error fault =>
      rw [htree] at hrule
      cases hrule
  | ok tree =>
      exact ⟨source, tree, hsource, rfl, hrules, hcomment, rfl,
        Source.parse_append_rule hsource rfl hrules hcomment htree⟩

end GrammarLint
