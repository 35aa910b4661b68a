import GrammarLint.Proofs.Fronts
import GrammarLint.Proofs.LinedUp

/-!
# Whole files

A file is a head, sections and rules.  Where the sections end is the one place that the
next token does not tell; there the start of the first rule does.  So a file is taken
apart into its lexemes, and what is read of it is read of every text that is lined up
with it, up to where that has more rules.
-/

namespace GrammarLint

open Grammar Text

/-! ## Lexemes of outlines -/

namespace Outline

variable (lines : LineIndex)

mutual

theorem lexemes_ofTree : (index : Nat) → (tree : Tree) →
    (allTokens (ofTree lines index tree).1).map Token.lexeme = tree.lexemes
  | _, .text _ => rfl
  | index, .node rule offset children => by
      have ih := lexemes_ofTrees index children
      cases rule with
      | terminal type => simp [ofTree, Tree.lexemes, tokenOf, Token.lexeme, Tree.allChars]
      | trivia => rfl
      | _ => simpa [ofTree, Tree.lexemes] using ih

theorem lexemes_ofTrees : (index : Nat) → (trees : List Tree) →
    (allTokens (ofTrees lines index trees).1).map Token.lexeme = Tree.allLexemes trees
  | _, [] => rfl
  | index, tree :: trees => by
      rw [ofTrees, Tree.allLexemes, ← lexemes_ofTree index tree, ← lexemes_ofTrees _ trees,
        allTokens_append, List.map_append]

end

end Outline

namespace Grammar

/-! ## Repetitions -/

/-- A repetition of what takes something goes round by round, until it fails. -/
theorem Yields.many_induction {body : Expr} (hvisible : body.visible = true)
    (hnullable : body.nullable = false) {motive : Cursor → List Tree → Cursor → Prop}
    (done : ∀ cursor, Refuses body cursor.rest → motive cursor [] cursor)
    (round : ∀ {cursor middle next : Cursor} {trees more : List Tree},
      Yields body cursor (some (trees, middle)) → Yields (.many body) middle (some (more, next)) →
        motive middle more next → motive cursor (trees ++ more) next)
    {cursor next : Cursor} {trees : List Tree}
    (h : Yields (.many body) cursor (some (trees, next))) : motive cursor trees next := by
  generalize hexpr : Expr.many body = expr at h
  generalize hresult : some (trees, next) = result at h
  induction h generalizing trees next with
  | manyAtEnd hend =>
      cases hexpr
      cases hresult
      exact done _ (hend ▸ refuses_nil hnullable)
  | manyNone _ hnone =>
      cases hexpr
      cases hresult
      exact done _ (hnone.refuses hvisible)
  | manyLast _ hone hstuck =>
      cases hexpr
      exact absurd hstuck (hone.offset_ne hnullable)
  | manyMore _ hone _ hmore _ ih =>
      cases hexpr
      cases hresult
      exact round hone hmore (ih rfl rfl)
  | _ => cases hexpr

theorem Yields.fronted_many {cursor next : Cursor} {trees : List Tree}
    (h : Yields (.many (.rule .ruleSpec)) cursor (some (trees, next))) :
    Fronted (Tree.allLexemes trees) := by
  refine Yields.many_induction rfl rfl
    (motive := fun _ trees _ => Fronted (Tree.allLexemes trees)) ?_ ?_ h
  · exact fun _ _ => .none
  · intro _ _ _ trees more hrule _ _
    rw [Tree.allLexemes_append]
    exact hrule.fronted _

theorem Yields.lexed_many {rule : Rule} (hturn : rule.turn true = some true)
    (hnullable : (Expr.rule rule).nullable = false) (hbegun : (Expr.rule rule).begun = [])
    {follow : Follow} (hcheck : (Expr.rule rule).check follow = true)
    (hmeets : ∀ lexemes, follow.Meets (fun _ => True) lexemes) {cursor next : Cursor}
    {trees : List Tree} (h : Yields (.many (.rule rule)) cursor (some (trees, next)))
    {last : List Char} {lexemes : List Lexeme} (hmore : Lexed Enters last lexemes next.rest) :
    Lexed Enters last (Tree.allLexemes trees ++ lexemes) cursor.rest := by
  have hvisible : (Expr.rule rule).visible = true := Expr.visible_of_turn hturn
  refine Yields.many_induction hvisible hnullable
    (motive := fun cursor trees next => Lexed Enters last lexemes next.rest →
      Lexed Enters last (Tree.allLexemes trees ++ lexemes) cursor.rest) ?_ ?_ h hmore
  · exact fun _ _ hmore => hmore
  · intro _ _ _ trees more hone _ ih hmore
    rw [Tree.allLexemes_append, List.append_assoc]
    exact hone.lexed hturn hcheck (by simp [hbegun]) (hmeets _) (ih hmore)

/-! ## The parts of a file -/

/-- The matches of the parts of a file, with the cursors between them. -/
structure ReadsFile (text : List Char) (gaps head sections rules : List Tree)
    (start body first next : Cursor) : Prop where
  gap : Yields gap (Cursor.start text) (some (gaps, start))
  head : Yields (.rule .grammarHead) start (some (head, body))
  sections : Yields (.many (.rule .prequel)) body (some (sections, first))
  rules : Yields (.many (.rule .ruleSpec)) first (some (rules, next))

theorem readsFile_iff {text : List Char} {tree : Tree} {next : Cursor} :
    Yields (.rule .grammarFile) (Cursor.start text) (some ([tree], next)) ↔
      ∃ gaps head sections rules start body first,
        ReadsFile text gaps head sections rules start body first next ∧
          tree = .node .grammarFile 0 (gaps ++ (head ++ (sections ++ rules))) := by
  constructor
  · intro h
    cases h with
    | rule h => cases h with
      | seq hgap h => cases h with
        | seq hhead h => cases h with
          | seq hsections hrules =>
              exact ⟨_, _, _, _, _, _, _, ⟨hgap, hhead, hsections, hrules⟩, rfl⟩
  · rintro ⟨gaps, head, sections, rules, start, body, first, ⟨hgap, hhead, hsections, hrules⟩, rfl⟩
    exact .rule (.seq hgap (.seq hhead (.seq hsections hrules)))

def partLexemes (head sections rules : List Tree) : List Lexeme :=
  Tree.allLexemes head ++ (Tree.allLexemes sections ++ Tree.allLexemes rules)

section Files

variable {text : List Char} {gaps head sections rules : List Tree}
  {start body first next : Cursor}

theorem ReadsFile.start_rest (h : ReadsFile text gaps head sections rules start body first next) :
    start.rest = afterTrivia text := by
  cases h.gap with
  | rule hgap => exact afterTrivia_of_yields hgap

theorem ReadsFile.allLexemes (h : ReadsFile text gaps head sections rules start body first next) :
    Tree.allLexemes (gaps ++ (head ++ (sections ++ rules))) = partLexemes head sections rules := by
  rw [Tree.allLexemes_append, lexemes_gap h.gap, Tree.allLexemes_append, Tree.allLexemes_append]
  rfl

theorem ReadsFile.lexed (h : ReadsFile text gaps head sections rules start body first next) :
    Lexed Enters next.rest (partLexemes head sections rules) (afterTrivia text) := by
  have hrules : Lexed Enters next.rest (Tree.allLexemes rules ++ []) first.rest :=
    h.rules.lexed_many rfl rfl rfl (by decide : (Expr.rule .ruleSpec).check (.next [] true) = true)
      (fun _ => .inr ⟨rfl, trivial⟩) .nil
  have hsections := h.sections.lexed_many rfl rfl rfl
    (by decide : (Expr.rule .prequel).check .any = true) (fun _ => trivial) hrules
  rw [List.append_nil] at hsections
  rw [← h.start_rest]
  exact h.head.lexed (by decide : (Expr.rule .grammarHead).turn true = some true)
    (by decide : (Expr.rule .grammarHead).check .any = true) nofun trivial hsections

/-! ## The same file -/

variable {fits : List Char → List Char → Prop} {last final : List Char} {length size : Nat}

theorem Lined.closes_fronted (hclosers : ∀ expr ∈ closers, Refuses expr final) :
    Lined.Closes fits last final Fronted := by
  intro lexemes first second hlined hfront
  cases lexemes with
  | nil => exact hlined.ends.2 ▸ hclosers
  | cons lexeme lexemes => exact hlined.lexed_second.refuses_closers hfront

theorem Yields.retold_sections (hclosers : ∀ expr ∈ closers, Refuses expr final)
    {cursor next : Cursor} {trees : List Tree}
    (h : Yields (.many (.rule .prequel)) cursor (some (trees, next))) {lexemes : List Lexeme}
    (hfront : Fronted lexemes) (hnone : lexemes = [] → final = []) {other : Cursor}
    (hlined : Lined fits last final (Tree.allLexemes trees ++ lexemes) cursor.rest other.rest)
    (haligned : Aligned length size cursor other) :
    Retells fits last final length size (.many (.rule .prequel)) other trees next true lexemes := by
  have hstop : Lined.Closes fits last final Fronted := Lined.closes_fronted hclosers
  refine Yields.many_induction rfl rfl (motive := fun cursor trees next => ∀ other,
    Lined fits last final (Tree.allLexemes trees ++ lexemes) cursor.rest other.rest →
      Aligned length size cursor other → Retells fits last final length size
        (.many (.rule .prequel)) other trees next true lexemes) ?_ ?_ h other hlined haligned
  · intro cursor hrefuses other (hlined : Lined fits last final lexemes _ _) haligned
    have hscoped := hlined.lexed_first.not_scoped hrefuses
    have hsecond : Refuses (.rule .prequel) other.rest := by
      refine hlined.lexed_second.refuses_prequel hfront (fun hempty => ?_) hscoped
      subst hempty
      rw [hlined.ends.2, hnone rfl]
    exact ⟨[], other, yields_many_of_refuses hsecond, .nil, hlined, haligned⟩
  · intro cursor middle next trees more hone _ ih other hlined haligned
    rw [Tree.allLexemes_append, List.append_assoc] at hlined
    obtain ⟨others, later, hyields, hsimilar, hlined, haligned⟩ := hone.retold hstop
      (by decide : (Expr.rule .prequel).turn true = some true)
      (by decide : (Expr.rule .prequel).check .any = true) trivial hlined haligned
    obtain ⟨found, last, hmore, hsimilar', hrest⟩ := ih later hlined haligned
    exact ⟨_, last, .manyMore (hyields.rest_ne_nil rfl) hyields (hyields.offset_ne rfl) hmore,
      .append hsimilar hsimilar', hrest⟩

theorem Yields.retold_rules (hclosers : ∀ expr ∈ closers, Refuses expr final)
    {cursor next stop : Cursor} {trees more : List Tree}
    (h : Yields (.many (.rule .ruleSpec)) cursor (some (trees, next)))
    (hmore : ∀ later, later.rest = final → later.offset + later.rest.length = size →
      Yields (.many (.rule .ruleSpec)) later (some (more, stop))) {other : Cursor}
    (hlined : Lined fits last final (Tree.allLexemes trees) cursor.rest other.rest)
    (haligned : Aligned length size cursor other) :
    ∃ others, Yields (.many (.rule .ruleSpec)) other (some (others ++ more, stop)) ∧
      Similar (Located fits length size) Eq trees others := by
  have hstop : Lined.Closes fits last final Fronted := Lined.closes_fronted hclosers
  refine Yields.many_induction rfl rfl (motive := fun cursor trees next => ∀ other,
    Lined fits last final (Tree.allLexemes trees) cursor.rest other.rest →
      Aligned length size cursor other →
        ∃ others, Yields (.many (.rule .ruleSpec)) other (some (others ++ more, stop)) ∧
          Similar (Located fits length size) Eq trees others) ?_ ?_ h other hlined haligned
  · intro cursor _ other hlined haligned
    exact ⟨[], hmore other hlined.ends.2 haligned.second, .nil⟩
  · intro cursor middle next trees rest hone hrest ih other hlined haligned
    rw [Tree.allLexemes_append] at hlined
    obtain ⟨others, later, hyields, hsimilar, hlined, haligned⟩ := hone.retold hstop
      (by decide : (Expr.rule .ruleSpec).turn true = some true)
      (by decide : (Expr.rule .ruleSpec).check (.next [] true) = true)
      (.inr ⟨rfl, hrest.fronted_many⟩) hlined haligned
    obtain ⟨found, hfound, hsimilar'⟩ := ih later hlined haligned
    refine ⟨others ++ found, ?_, .append hsimilar hsimilar'⟩
    rw [List.append_assoc]
    exact .manyMore (hyields.rest_ne_nil rfl) hyields (hyields.offset_ne rfl) hfound

/-- A file is read of every text that is lined up with it, up to where that goes on. -/
theorem ReadsFile.retold (h : ReadsFile text gaps head sections rules start body first next)
    {second : List Char} (hlined : Lined fits last final (partLexemes head sections rules)
      (afterTrivia text) (afterTrivia second))
    (hclosers : ∀ expr ∈ closers, Refuses expr final)
    (hnone : Tree.allLexemes rules = [] → final = []) {more : List Tree} {stop : Cursor}
    (hmore : ∀ later, later.rest = final → later.offset + later.rest.length = second.length →
      Yields (.many (.rule .ruleSpec)) later (some (more, stop))) :
    ∃ others,
      Yields (.rule .grammarFile) (Cursor.start second)
        (some ([.node .grammarFile 0 (others ++ more)], stop)) ∧
      Similar (Located fits text.length second.length) Eq
        (gaps ++ (head ++ (sections ++ rules))) others := by
  obtain ⟨spaces, begun, hgap, hbegun⟩ := exists_yields_trivia (Cursor.start second)
  have haligned : Aligned text.length second.length start begun := by
    have hstart : Aligned text.length second.length (Cursor.start text) (Cursor.start second) :=
      ⟨Nat.zero_add _, Nat.zero_add _⟩
    exact hstart.moves h.gap.moves hgap.moves
  have hlined : Lined fits last final (partLexemes head sections rules) start.rest begun.rest := by
    rw [h.start_rest, hbegun]
    exact hlined
  obtain ⟨others, body', hhead, hsimilar, hlined, haligned⟩ := h.head.retold
    (Lined.closes_fronted hclosers) (by decide : (Expr.rule .grammarHead).turn true = some true)
    (by decide : (Expr.rule .grammarHead).check .any = true) trivial hlined haligned
  obtain ⟨parts, first', hsections, hsimilar', hlined, haligned⟩ := h.sections.retold_sections
    hclosers h.rules.fronted_many hnone hlined haligned
  obtain ⟨found, hrules, hsimilar''⟩ := h.rules.retold_rules hclosers hmore hlined haligned
  let gaps' : List Tree := [.node .trivia (Cursor.start second).offset spaces]
  refine ⟨gaps' ++ (others ++ (parts ++ found)),
    readsFile_iff.2 ⟨gaps', others, parts, found ++ more, _, _, _,
      ⟨.rule hgap, hhead, hsections, hrules⟩, by simp only [List.append_assoc]⟩, ?_⟩
  refine .append ?_ (.append hsimilar (.append hsimilar' hsimilar''))
  cases h.gap with
  | rule _ => exact .trivia _ _ _ _

end Files

end Grammar

theorem Source.readsFile {text : String} {file : Option String} {source : Source}
    (h : Source.parse text file = .ok source) :
    ∃ gaps head sections rules start body first next,
      ReadsFile text.toList gaps head sections rules start body first next ∧ next.rest = [] ∧
        Source.ofTree file text.toList
          (.node .grammarFile 0 (gaps ++ (head ++ (sections ++ rules)))) = some source ∧
        source.tokens.toList.map Token.lexeme = partLexemes head sections rules := by
  obtain ⟨tree, ⟨next, hyields, hend⟩, hsource⟩ := Source.parse_eq_ok_iff.1 h
  obtain ⟨gaps, head, sections, rules, start, body, first, hreads, rfl⟩ := readsFile_iff.1 hyields
  refine ⟨gaps, head, sections, rules, start, body, first, next, hreads, hend, hsource, ?_⟩
  obtain ⟨root, more, -, rfl⟩ := Source.ofTree_eq_some_iff.1 hsource
  rw [List.toList_toArray, outlineOf, Outline.lexemes_ofTree]
  exact hreads.allLexemes

end GrammarLint
