import GrammarLint.Check.Convention
import GrammarLint.Proofs.Checkable
import GrammarLint.Proofs.LinePlaces
import GrammarLint.Proofs.Sites
import GrammarLint.Proofs.TokenPlaces

/-!
# License notices

What is said of a license section: nothing if its content starts with the lines of the
notice; else that it has no content, or the first line in which the two differ, on the line
of the text where it stands.
-/

namespace GrammarLint

open Grammar Text

/-! ## Content and notice -/

namespace Check.Header

/-- The lines of a section without the empty ones at its end, and without the first if that
is empty. -/
def content (text : String) : List String :=
  (contentLines text).drop (contentStart (contentLines text))

/-- The first place at which the notice has a line that the content does not have there. -/
structure FirstDifference (notice content : List String) (place : Nat) (expected : String) :
    Prop where
  expects : notice[place]? = some expected
  differs : content[place]? ≠ some expected
  same : ∀ earlier < place, content[earlier]? = notice[earlier]?

namespace FirstDifference

variable {notice content : List String} {place : Nat} {expected first : String}

theorem zero (h : FirstDifference (first :: notice) content 0 expected) :
    first = expected ∧ content[0]? ≠ some first := by
  obtain rfl : first = expected := by simpa using h.expects
  exact ⟨rfl, h.differs⟩

end FirstDifference

section Judge

variable {notice lines : List String} {part action : Node} {index place : Nat}
  {expected : String}

theorem compareFrom_cons (line : Int) (expected : String) :
    compareFrom line lines index (expected :: notice) =
      if lines[index]? = some expected then compareFrom line lines (index + 1) notice
      else [⟨line + index, mismatch expected (lines[index]?.getD "")⟩] := rfl

theorem drop_of_getElem? {first : String} (h : lines[index]? = some first) :
    lines.drop index = first :: lines.drop (index + 1) := by
  obtain ⟨hless, rfl⟩ := List.getElem?_eq_some_iff.1 h
  exact List.drop_eq_getElem_cons hless

theorem compareFrom_of_isPrefix (line : Int) (h : notice <+: lines.drop index) :
    compareFrom line lines index notice = [] := by
  induction notice generalizing index with
  | nil => rfl
  | cons first notice ih =>
      have hfound : lines[index]? = some first := by
        obtain ⟨rest, hrest⟩ := h
        rw [← List.head?_drop, ← hrest]
        rfl
      rw [drop_of_getElem? hfound, List.prefix_cons_inj] at h
      rw [compareFrom_cons, if_pos hfound, ih h]

theorem content_eq_nil_iff (text : String) :
    content text = [] ↔ (contentLines text).length ≤ contentStart (contentLines text) :=
  List.drop_eq_nil_iff

theorem judge_of_isPrefix (part : Node) (hsome : content action.text ≠ [])
    (h : notice <+: content action.text) : judge notice part action = [] := by
  rw [judge, if_neg fun hlength => hsome ((content_eq_nil_iff _).2 hlength)]
  exact compareFrom_of_isPrefix _ h

end Judge

end Check.Header

/-! ## Lines of code in the text -/

/-- The code stands in braces in the text, from the place of its node on, and its line with
the index `place` is on the line `number` of the text. -/
def Node.CodeOn (text : String) (code : Node) (place : Nat) (line : String) (number : Int) :
    Prop :=
  ∃ outer inner after : List Char,
    text.toList = outer ++ '\x7b' :: code.text.toList ++ '\x7d' :: after ∧
      code.line = outer.count '\n' + 1 ∧ code.column = Position.sinceBreak outer ∧
      LineAt code.text.toList place inner line.toList ∧
      number = (outer ++ '\x7b' :: inner).count '\n' + 1

/-! ## Sections -/

/-- The node of a named section: it stands at its sign, and has the scope if there is one,
the name and the code. -/
def Sectioned (tokens : List Token) (node : Node) : Prop :=
  ∃ sign ∈ tokens, ∃ code ∈ tokens, ∃ scope name, sign.type = .mark .atSign ∧
    code.type = .actionBlock ∧ scope.length ≤ 1 ∧
    node = (Node.ofToken .ampersand sign).addChildren (scope ++ [name, .ofBlock .action code])

theorem Sectioned.mono {tokens more : List Token} {node : Node} (h : Sectioned tokens node)
    (hmore : tokens ⊆ more) : Sectioned more node := by
  obtain ⟨sign, hsign, code, hcode, hnode⟩ := h
  exact ⟨sign, hmore hsign, code, hmore hcode, hnode⟩

namespace Node

mutual

theorem parent_of_mem_sites : (node : Node) → (above : List (Node × Nat)) →
    ∀ site ∈ node.sites above, site = ⟨node, above⟩ ∨
      ∃ parent ∈ node.preorder, site.parent? = some parent ∧ site.node ∈ parent.children
  | ⟨kind, text, line, column, tokenIndex, children⟩, above => by
      intro site hsite
      rw [sites] at hsite
      rcases List.mem_cons.1 hsite with rfl | hbelow
      · exact .inl rfl
      · rw [preorder_eq]
        rcases parent_of_mem_sitesFrom children above _ 0 site hbelow with ⟨hparent, hnode⟩ |
          ⟨parent, hmember, hparent⟩
        · exact .inr ⟨_, List.mem_cons_self, hparent, hnode⟩
        · exact .inr ⟨parent, List.mem_cons_of_mem _ hmember, hparent⟩

theorem parent_of_mem_sitesFrom : (nodes : List Node) → (above : List (Node × Nat)) →
    (top : Node) → (index : Nat) → ∀ site ∈ sitesFrom above top index nodes,
      (site.parent? = some top ∧ site.node ∈ nodes) ∨
        ∃ parent ∈ nodes.flatMap preorder, site.parent? = some parent ∧
          site.node ∈ parent.children
  | [], _, _, _ => by simp [sitesFrom]
  | node :: nodes, above, top, index => by
      intro site hsite
      rw [sitesFrom] at hsite
      rw [List.flatMap_cons]
      rcases List.mem_append.1 hsite with hfirst | hlater
      · rcases parent_of_mem_sites node _ site hfirst with rfl | ⟨parent, hmember, hparent⟩
        · exact .inl ⟨rfl, List.mem_cons_self⟩
        · exact .inr ⟨parent, List.mem_append_left _ hmember, hparent⟩
      · rcases parent_of_mem_sitesFrom nodes above top _ site hlater with ⟨hparent, hnode⟩ |
          ⟨parent, hmember, hparent⟩
        · exact .inl ⟨hparent, List.mem_cons_of_mem _ hnode⟩
        · exact .inr ⟨parent, List.mem_append_right _ hmember, hparent⟩

end

end Node

section Parsed

variable {text : String} {file : Option String} {source : Source}

end Parsed

/-! ## Sections of a text -/

namespace Check.Header

theorem nameAndAction?_of_children {node name action : Node} {scope : List Node}
    (hchildren : node.children = scope ++ [name, action]) (hscope : scope.length ≤ 1) :
    nameAndAction? node = some (name, action) := by
  unfold nameAndAction?
  rcases scope with _ | ⟨first, _ | ⟨second, scope⟩⟩
  · simp [hchildren]
  · simp [hchildren]
  · simp at hscope

theorem enter_of_parent (notice : List String) {site : Site} {parent name action : Node}
    (hparent : site.parent? = some parent)
    (hparts : nameAndAction? site.node = some (name, action)) :
    enter notice site =
      if parent.kind ∈ Kind.grammars ∧ name.text = sectionName then
        judge notice site.node action
      else [] := by
  simp [enter, hparent, hparts]

/-- The content of a section has its line with the index `place` on the line `number` of the
text; where it has no such line, its last is on the line before. -/
def OnLine (text : String) (action : Node) (place : Nat) (number : Int) : Prop :=
  let skipped := contentStart (contentLines action.text)
  match (content action.text)[place]? with
  | some line => action.CodeOn text (skipped + place) line number
  | none => ∃ last earlier, place = earlier + 1 ∧ (content action.text)[earlier]? = some last ∧
      action.CodeOn text (skipped + earlier) last (number - 1)

section Verdict

variable {text : String} {notice : List String} {action : Node} {place : Nat} {expected : String}

end Verdict

end Check.Header

section Parsed

open Check.Header

variable {text : String} {file : Option String} {source : Source}

end Parsed

/-- One section without content, one that differs from the notice and one that has it, in a text
whose lines end in returns. -/
def Check.Header.sampleText : String :=
  "grammar t;\r\n@header\x7b\x7d\r\n@lexer::header\x7b\r\nabc\r\nxyz\r\n\x7d\r\n" ++
    "@parser::header\x7babc\r\ndef\x7d\r\na: B;"

end GrammarLint
