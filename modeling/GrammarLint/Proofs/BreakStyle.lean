import GrammarLint.Proofs.Independence
import GrammarLint.Proofs.LineBreaks
import GrammarLint.Proofs.LinePlaces
import GrammarLint.Proofs.Spelling

/-!
# Checks and line breaks

Checks say the same of a text and of the text with a carriage return before every line
break.  Only blocks of code go over more than one line, and of these a check reads one,
the section with the license notice, line by line.
-/

namespace GrammarLint

open Grammar Text Files

/-! ## Sites under a view -/

def Site.under (view : View) (site : Site) : Site :=
  ⟨site.node.under view, site.above.map fun (node, index) => (node.under view, index)⟩

theorem Site.parent?_under (view : View) (site : Site) :
    (site.under view).parent? = site.parent?.map (Node.under view) := by
  obtain ⟨node, above⟩ := site
  cases above <;> rfl

namespace Node

variable (view : View)

mutual

theorem sites_under : (node : Node) → (above : List (Node × Nat)) →
    (node.under view).sites (above.map fun (node, index) => (node.under view, index)) =
      (node.sites above).map (Site.under view)
  | ⟨kind, text, line, column, index, children⟩, above => by
      rw [under, sites, sites, List.map_cons, ← sitesFrom_under children]
      rfl

theorem sitesFrom_under : (nodes : List Node) → (above : List (Node × Nat)) →
    (parent : Node) → (index : Nat) →
      sitesFrom (above.map fun (node, index) => (node.under view, index)) (parent.under view) index
        (allUnder view nodes) = (sitesFrom above parent index nodes).map (Site.under view)
  | [], _, _, _ => rfl
  | node :: nodes, above, parent, index => by
      rw [allUnder, sitesFrom, sitesFrom, List.map_append, ← sites_under node,
        ← sitesFrom_under nodes]
      rfl

end

end Node

theorem Source.sites_under (view : View) (source : Source) :
    (source.under view).sites = source.sites.map (Site.under view) :=
  Node.sites_under view source.root []

/-! ## Lines -/

theorem Text.linesFrom_withReturns (line : List Char) {chars : List Char} (h : '\r' ∉ chars) :
    linesFrom line (withReturns chars) = linesFrom line chars := by
  induction chars generalizing line with
  | nil => rfl
  | cons c chars ih =>
      rw [List.mem_cons, not_or] at h
      by_cases hbreak : c = '\n'
      · simp [hbreak, linesFrom, ih _ h.2]
      · have hreturn : c ≠ '\r' := fun heq => h.1 heq.symm
        rw [withReturns_cons hbreak, linesFrom_plain line hbreak fun heq => absurd heq hreturn,
          linesFrom_plain line hbreak fun heq => absurd heq hreturn, ih _ h.2]

theorem lines_returned {text : String} (h : '\r' ∉ text.toList) :
    lines (View.returned.text text) = lines text := by
  simp [lines, View.returned, linesFrom_withReturns [] h]

/-! ## Texts of nodes -/

/-- The text has no returns, and is on one line unless it is a block of code. -/
structure Node.Flat (node : Node) : Prop where
  no_return : '\r' ∉ node.text.toList
  one_line : node.kind ∉ [Kind.action, .argAction] → '\n' ∉ node.text.toList

theorem Covers.subset {before taken rest : List Char} {index : Nat} {tokens : List Token}
    (h : Covers before index tokens taken rest) :
    ∀ token ∈ tokens, token.text.toList ⊆ taken := by
  induction h with
  | none => simp
  | trivia _ _ ih =>
      exact fun token htoken => List.subset_append_of_subset_right _ (ih token htoken)
  | token _ _ _ _ ih =>
      refine List.forall_mem_cons.2 ⟨List.subset_append_left _ _, fun token htoken => ?_⟩
      exact List.subset_append_of_subset_right _ (ih token htoken)

theorem Source.flat {text : String} {file : Option String} {source : Source}
    (h : Source.parse text file = .ok source) (hreturn : '\r' ∉ text.toList) :
    ∀ node ∈ source.root.preorder, node.Flat := by
  intro node hnode
  have hcovers := Source.covers h
  have hclear {token : Token} (htoken : token ∈ source.tokens.toList) :
      '\r' ∉ token.text.toList := fun hmember => hreturn (hcovers.subset token htoken hmember)
  cases Source.spelt h node hnode with
  | token hmember htype htext =>
      exact ⟨htext ▸ hclear hmember, fun _ => htext ▸ (hcovers.matched hmember).oneLine htype⟩
  | inside hmember hkind htext =>
      refine ⟨?_, fun hother => absurd hkind hother⟩
      rw [htext, String.toList_ofList]
      exact fun hinside =>
        hclear hmember (List.mem_of_mem_tail (List.mem_of_mem_dropLast hinside))
  | label htext =>
      have hlabels : ∀ label ∈ [Assemble.blockLabel, Assemble.altLabel, Assemble.endLabel],
          '\r' ∉ label.toList ∧ '\n' ∉ label.toList := by decide
      exact ⟨(hlabels _ htext).1, fun _ => (hlabels _ htext).2⟩

namespace Node

mutual

theorem preorder_subset : (root : Node) → {node : Node} → node ∈ root.preorder →
    node.preorder ⊆ root.preorder
  | ⟨kind, text, line, column, index, children⟩, node, h => by
      rw [preorder_eq ⟨kind, text, line, column, index, children⟩] at h ⊢
      rcases List.mem_cons.1 h with rfl | hbelow
      · rw [preorder_eq]
        exact List.Subset.refl _
      · exact List.subset_cons_of_subset _ (preorders_subset children hbelow)

theorem preorders_subset : (nodes : List Node) → {node : Node} → node ∈ nodes.flatMap preorder →
    node.preorder ⊆ nodes.flatMap preorder
  | [], _, h => absurd h List.not_mem_nil
  | first :: nodes, node, h => by
      rw [List.flatMap_cons] at h ⊢
      rcases List.mem_append.1 h with hfirst | hlater
      · exact List.subset_append_of_subset_left _ (preorder_subset first hfirst)
      · exact List.subset_append_of_subset_right _ (preorders_subset nodes hlater)

end

mutual

theorem under_returned : (node : Node) → (∀ below ∈ node.preorder, '\n' ∉ below.text.toList) →
    node.under .returned = node
  | ⟨kind, text, line, column, index, children⟩, h => by
      obtain ⟨htext, hchildren⟩ := forall_mem_preorder.1 h
      rw [under, View.returned_text htext, allUnder_returned children hchildren,
        View.place_eq_self fun _ => rfl]
      rfl

theorem allUnder_returned : (nodes : List Node) →
    (∀ node ∈ nodes, ∀ below ∈ node.preorder, '\n' ∉ below.text.toList) →
      allUnder .returned nodes = nodes
  | [], _ => rfl
  | node :: nodes, h => by
      obtain ⟨hnode, hnodes⟩ := List.forall_mem_cons.1 h
      rw [allUnder, under_returned node hnode, allUnder_returned nodes hnodes]

end

end Node

/-! ## Sections without code -/

namespace Shape

def Codeless (node : Node) : Prop :=
  ∀ below ∈ node.preorder, below.kind ∉ [Kind.action, .argAction]

theorem codeless_iff {node : Node} :
    Codeless node ↔
      node.kind ∉ [Kind.action, .argAction] ∧ ∀ child ∈ node.children, Codeless child :=
  Node.forall_mem_preorder

theorem Leaf.codeless {kinds : List Kind} {node : Node} (h : Leaf kinds node)
    (hkinds : ∀ kind ∈ kinds, kind ∉ [Kind.action, .argAction]) : Codeless node :=
  codeless_iff.2 ⟨hkinds _ h.1, by simp [h.2]⟩

theorem Pair.codeless {left right : List Kind} {node : Node} (h : Pair left right node)
    (hleft : ∀ kind ∈ left, kind ∉ [Kind.action, .argAction])
    (hright : ∀ kind ∈ right, kind ∉ [Kind.action, .argAction]) : Codeless node := by
  obtain ⟨hkind, key, value, hchildren, hkey, hvalue⟩ := h
  refine codeless_iff.2 ⟨by simp [hkind], ?_⟩
  simpa [hchildren] using ⟨hkey.codeless hleft, hvalue.codeless hright⟩

theorem Options.codeless {node : Node} (h : Options node) : Codeless node :=
  codeless_iff.2 ⟨by simp [h.1], fun entry hentry =>
    (h.2 entry hentry).codeless (by decide) (by decide)⟩

theorem Tokens.codeless {node : Node} (h : Tokens node) : Codeless node := by
  refine codeless_iff.2 ⟨by simp [h.1], fun entry hentry => ?_⟩
  rcases h.2 entry hentry with hleaf | hpair
  · exact hleaf.codeless (by decide)
  · exact hpair.codeless (by decide) (by decide)

end Shape

section Answers

variable {source : Source} {site : Site}

theorem Source.section_returned {text : String} {file : Option String}
    (h : Source.parse text file = .ok source) (hreturn : '\r' ∉ text.toList) {node : Node}
    (hnode : node ∈ source.root.preorder) (hkind : node.kind = .options ∨ node.kind = .tokens) :
    node.under .returned = node := by
  have hroot : Shape.Root source.root := Source.holds_root Shape.inductive_ofRule h
  have hplain : Shape.Plain node := by
    rcases hroot.rule_or_plain hnode with ⟨-, hrule⟩ | hplain
    · simp [hrule.1] at hkind
    · exact hplain
  have hcodeless : Shape.Codeless node := by
    rcases hkind with hkind | hkind
    · exact (hplain.options hkind).codeless
    · exact (hplain.tokens hkind).codeless
  refine Node.under_returned node fun below hbelow => ?_
  exact (Source.flat h hreturn below (Node.preorder_subset _ hnode hbelow)).one_line
    (hcodeless below hbelow)

/-! ## What conventions say -/

theorem nameAndAction?_under (view : View) (node : Node) :
    Check.Header.nameAndAction? (node.under view) =
      (Check.Header.nameAndAction? node).map (Prod.map (Node.under view) (Node.under view)) := by
  rw [Check.Header.nameAndAction?, Node.under_children, Check.Header.nameAndAction?]
  rcases node.children with _ | ⟨_, _ | ⟨_, _ | ⟨_, _ | ⟨_, _⟩⟩⟩⟩ <;> rfl

theorem Check.Header.mem_of_nameAndAction? {node name action : Node}
    (h : nameAndAction? node = some (name, action)) : action ∈ node.children := by
  unfold nameAndAction? at h
  split at h
  · cases h
    simp_all
  · cases h
    simp_all
  · cases h

theorem returned_eq_iff {text word : String} (h : '\n' ∉ word.toList) :
    View.returned.text text = word ↔ text = word := by
  constructor
  · intro hsame
    have hchars : withReturns text.toList = withReturns word.toList := by
      rw [withReturns_eq_self h, ← hsame]
      simp [View.returned]
    exact String.toList_injective (withReturns_injective.1 hchars)
  · rintro rfl
    exact View.returned_text h

theorem header_returned (notice : List String)
    (hflat : ∀ child ∈ site.node.children, child.Flat) :
    Check.Header.enter notice (site.under .returned) = Check.Header.enter notice site := by
  unfold Check.Header.enter
  rw [Site.parent?_under, show (site.under .returned).node = site.node.under .returned from rfl,
    nameAndAction?_under]
  cases site.parent? with
  | none => rfl
  | some parent =>
      cases hparts : Check.Header.nameAndAction? site.node with
      | none => rfl
      | some parts =>
          obtain ⟨name, action⟩ := parts
          have haction : '\r' ∉ action.text.toList :=
            (hflat action (Check.Header.mem_of_nameAndAction? hparts)).no_return
          have hname : (View.returned.text name.text == Check.Header.sectionName) =
              (name.text == Check.Header.sectionName) := by
            rw [Bool.eq_iff_iff, beq_iff_eq, beq_iff_eq]
            exact returned_eq_iff (by decide)
          simp only [Option.map_some, Prod.map, Node.under_kind, Node.under_eq _ name, hname]
          have hjudge : Check.Header.judge notice (site.node.under .returned)
              (action.under .returned) = Check.Header.judge notice site.node action := by
            simp only [Check.Header.judge, Check.Header.contentLines, Node.under_eq,
              lines_returned haction]
            rfl
          rw [hjudge]

theorem tokenBefore_returned (node : Node) :
    (source.under .returned).tokenBefore (node.under .returned) =
      (source.tokenBefore node).map (·.map (Token.under .returned)) := by
  have hindex : (node.under .returned).tokenIndex = node.tokenIndex := by
    rw [Node.under_eq]
    exact View.place_eq_self (fun _ => rfl) _
  rw [Source.tokenBefore, Source.tokenBefore, hindex, Source.under, Array.getElem?_map]
  split
  · rfl
  · cases source.tokens[(node.tokenIndex - 1).toNat]? <;> rfl

theorem firstOfKind?_under (view : View) (node : Node) (kind : Kind) :
    (node.under view).firstOfKind? kind = (node.firstOfKind? kind).map (Node.under view) := by
  have hkind : (fun child => child.kind == kind) ∘ Node.under view =
      fun child => child.kind == kind := by
    funext child
    rw [Function.comp_apply, Node.under_kind]
  rw [Node.firstOfKind?, Node.under_children, List.find?_map, hkind, Node.firstOfKind?]

theorem judge_returned (symbol : String) (delimiter : Node) :
    Check.Delimiters.judge (some (source.under .returned)) symbol (delimiter.under .returned) =
      Check.Delimiters.judge (some source) symbol delimiter := by
  simp only [Check.Delimiters.judge, tokenBefore_returned]
  rw [Node.under_eq]
  rcases source.tokenBefore delimiter with fault | (_ | token) <;> rfl

theorem delimiters_returned (rule : Node) :
    Check.Delimiters.enter (some (source.under .returned)) (rule.under .returned) =
      Check.Delimiters.enter (some source) rule := by
  have hpresent (symbol : String) (delimiter : Option Node) :
      Check.Delimiters.judgeIfPresent (some (source.under .returned)) symbol
          (delimiter.map (Node.under .returned)) =
        Check.Delimiters.judgeIfPresent (some source) symbol delimiter := by
    cases delimiter with
    | none => rfl
    | some node => exact judge_returned symbol node
  simp only [Check.Delimiters.enter, firstOfKind?_under, hpresent]

theorem Check.Indentation.enter_under (view : View) (block : Block) (judge : Node → List Remark)
    (hnode : site.node.under view = site.node) :
    enter block judge (site.under view) = enter block judge site := by
  unfold enter
  rw [Site.parent?_under, show (site.under view).node = site.node from hnode]
  cases site.parent? with
  | none => rfl
  | some parent => simp only [Option.map_some, Node.under_kind]

theorem Convention.enter_returned {text : String} {file : Option String}
    (h : Source.parse text file = .ok source) (hreturn : '\r' ∉ text.toList)
    {convention : Convention} (settings : Settings) (hsite : site.node ∈ source.root.preorder)
    (hkind : site.node.kind ∈ convention.kinds) :
    convention.enter settings (some (source.under .returned)) (site.under .returned) =
      convention.enter settings (some source) site := by
  have hnode (hsection : site.node.kind = .options ∨ site.node.kind = .tokens) :
      site.node.under .returned = site.node :=
    Source.section_returned h hreturn hsite hsection
  cases convention with
  | header =>
      refine congrArg Reaction.ofRemarks (header_returned settings.notice fun child hchild => ?_)
      exact Source.flat h hreturn child
        (Node.preorder_subset _ hsite (Node.child_mem_preorder hchild))
  | delimiters => exact delimiters_returned site.node
  | optionsIndentation =>
      have hsame := hnode (.inl (List.mem_singleton.1 hkind))
      exact congrArg Reaction.ofRemarks (Check.Indentation.enter_under _ _ _ hsame)
  | tokensIndentation =>
      have hsame := hnode (.inr (List.mem_singleton.1 hkind))
      exact congrArg Reaction.ofRemarks (Check.Indentation.enter_under _ _ _ hsame)
  | optionsSpacing =>
      have hsame := hnode (.inl (List.mem_singleton.1 hkind))
      exact congrArg (fun node => Reaction.ofRemarks (Check.Spacing.enter _ _ node)) hsame
  | tokensSpacing =>
      have hsame := hnode (.inr (List.mem_singleton.1 hkind))
      exact congrArg (fun node => Reaction.ofRemarks (Check.Spacing.enter _ _ node)) hsame
  | tokenNames =>
      have hsame := hnode (.inr (List.mem_singleton.1 hkind))
      exact congrArg (fun node => Reaction.ofRemarks (Check.TokenNames.enter node)) hsame
  | tokenOrder =>
      have hsame := hnode (.inr (List.mem_singleton.1 hkind))
      exact congrArg (fun node => Reaction.ofRemarks (Check.TokenOrder.enter node)) hsame

end Answers

/-! ## Diagnostics -/

namespace Walker

theorem Reliable.process_returned {walker : Walker} (h : Reliable walker)
    (hconsistent : Consistent walker) (files : FileSystem) {file text : String} {source : Source}
    (hparse : Source.parse text (some file) = .ok source) (hreturn : '\r' ∉ text.toList) :
    (walker.process files file (some (returned text))).2.2.diagnostics =
      (walker.process files file (some text)).2.2.diagnostics := by
  obtain ⟨fs, configs, hstaffed⟩ := h.staffed
  rw [h.process_eq_reports hconsistent files hparse,
    h.process_eq_reports hconsistent files (Source.parse_returned hparse), map_reports, map_reports,
    Source.sites_under, List.flatMap_map]
  refine List.flatMap_congr fun site hsite => ?_
  have hmember : site.node ∈ source.root.preorder := by
    rw [← source.root.map_node_sites []]
    exact List.mem_map_of_mem hsite
  rw [show (site.under .returned).node.kind = site.node.kind from Node.under_kind _ _]
  refine List.flatMap_congr fun descriptor hdescriptor => ?_
  have hsubscribed : descriptor.check ∈ walker.subscribers site.node.kind := by
    rw [hconsistent.dispatch]
    exact List.mem_map_of_mem hdescriptor
  obtain ⟨convention, settings, hemployed, hkind⟩ := hstaffed.subscribers _ _ hsubscribed
  rw [Descriptor.reportsAt, Descriptor.reportsAt, hemployed.respond_enter, hemployed.respond_enter,
    Convention.enter_returned hparse hreturn settings hmember hkind]

end Walker

/-- The style of line breaks does not matter.  A text without returns is read if and only
if the text with a return before every line break is; then tokens and nodes are the same
once the returns are taken out of their texts, and whatever checks are set up, processing
either text gives the same diagnostics. -/
theorem Source.breaks_immaterial {text : String} (hreturn : '\r' ∉ text.toList) :
    (∀ file, (∃ source, Source.parse text file = .ok source) ↔
      ∃ other, Source.parse (returned text) file = .ok other) ∧
    ∀ file source other, Source.parse text file = .ok source →
      Source.parse (returned text) file = .ok other →
        other.tokens.map (Token.under .turned) = source.tokens ∧
        other.root.under .turned = source.root ∧
        ∀ collector fs configs files name,
          let walker := (Walker.setupAll { collector } fs configs).walker
          (walker.process files name (some text)).2.2.diagnostics =
            (walker.process files name (some (returned text))).2.2.diagnostics := by
  refine ⟨fun file => Source.accepts_returned, ?_⟩
  intro file source other hparse hother
  rw [Source.parse_returned hparse] at hother
  cases hother
  have hturned := Source.under_undone View.turned_undoes source
  refine ⟨congrArg Source.tokens hturned, congrArg Source.root hturned, ?_⟩
  intro collector fs configs files name walker
  obtain ⟨tree, haccepts, -⟩ := Source.parse_eq_ok_iff.1 hparse
  obtain ⟨named, -, hnamed⟩ := haccepts.source (some name)
  have hreliable : walker.Reliable := Walker.reliable_setupAll collector fs configs
  have hconsistent : walker.Consistent := Walker.consistent_setupAll collector fs configs
  exact (hreliable.process_returned hconsistent files hnamed hreturn).symm

/-- A comment that ends with its line, and a quote that is not closed in its line. -/
def Source.sampleBreaks : String :=
  "grammar g; // x\n@header \x7b \"\n// y\n\x7d\na\n    : 'b'\n    ;\n"

theorem Source.breaks_immaterial_sample :
    ∃ source other, Source.parse Source.sampleBreaks none = .ok source ∧
      Source.parse (returned Source.sampleBreaks) none = .ok other ∧
      other.tokens.map (Token.under .turned) = source.tokens ∧
      other.root.under .turned = source.root ∧
      ∀ collector fs configs files name,
        let walker := (Walker.setupAll { collector } fs configs).walker
        (walker.process files name (some Source.sampleBreaks)).2.2.diagnostics =
          (walker.process files name (some (returned Source.sampleBreaks))).2.2.diagnostics := by
  have hreturn : '\r' ∉ Source.sampleBreaks.toList := by decide
  have hsome : (Source.parse Source.sampleBreaks none).toOption.isSome = true := by
    decide +kernel
  obtain ⟨source, hsource⟩ := Source.exists_of_isSome hsome
  obtain ⟨haccepts, hagree⟩ := Source.breaks_immaterial hreturn
  obtain ⟨other, hother⟩ := (haccepts none).1 ⟨source, hsource⟩
  exact ⟨source, other, hsource, hother, hagree none source other hsource hother⟩

end GrammarLint
