import GrammarLint.Proofs.Composition
import GrammarLint.Proofs.Tokenisation

/-!
# Leaves and tokens

Every token with a text of its own has one leaf in the tree.  The leaves with a
given index are counted along with the tokens that have it: there are at least
as many as tokens with a text of their own, and at most as many as tokens.
-/

namespace GrammarLint

open Grammar Text

def contentTypes : List Terminal :=
  [.identifier, .qualifiedId, .stringLiteral, .doubleQuoted, .integer, .actionBlock, .argBlock]

@[simp] theorem keyword_not_mem_contentTypes (word : Keyword) :
    Terminal.keyword word ∉ contentTypes := by
  simp [contentTypes]

@[simp] theorem mark_not_mem_contentTypes (sign : Mark) : Terminal.mark sign ∉ contentTypes := by
  simp [contentTypes]

/-! ## Counting -/

namespace Node

def isLeafAt (index : Nat) (node : Node) : Bool :=
  node.children.isEmpty && node.tokenIndex == index

/-- How many leaves below a node, or the node itself, have the index. -/
def leafCount (index : Nat) (node : Node) : Nat :=
  node.preorder.countP (isLeafAt index)

def leafCounts (index : Nat) (nodes : List Node) : Nat :=
  (nodes.flatMap preorder).countP (isLeafAt index)

section Counts

variable (index : Nat) (node : Node) (nodes others : List Node)

@[simp] theorem leafCounts_nil : leafCounts index [] = 0 := rfl

@[simp] theorem leafCounts_cons :
    leafCounts index (node :: nodes) = node.leafCount index + leafCounts index nodes := by
  rw [leafCounts, List.flatMap_cons, List.countP_append]
  rfl

@[simp] theorem leafCounts_append :
    leafCounts index (nodes ++ others) = leafCounts index nodes + leafCounts index others := by
  rw [leafCounts, List.flatMap_append, List.countP_append]
  rfl

theorem leafCount_eq :
    node.leafCount index =
      (if node.isLeafAt index then 1 else 0) + leafCounts index node.children := by
  rw [leafCount, preorder_eq, List.countP_cons, Nat.add_comm]
  rfl

end Counts

theorem leafCount_leaf {node : Node} (h : node.children = []) (index : Nat) :
    node.leafCount index = if node.tokenIndex = index then 1 else 0 := by
  simp [leafCount_eq, h, isLeafAt]

theorem leafCount_inner {node : Node} (h : node.children ≠ []) (index : Nat) :
    node.leafCount index = leafCounts index node.children := by
  simp [leafCount_eq, h, isLeafAt]

@[simp] theorem leafCount_settle (token : Token) (node : Node) (index : Nat) :
    (node.settle token).leafCount index = node.leafCount index := by
  simp [leafCount_eq, isLeafAt]

theorem leafCounts_settle (token : Token) (nodes : List Node) (index : Nat) :
    leafCounts index (nodes.map (settle token)) = leafCounts index nodes := by
  induction nodes with
  | nil => rfl
  | cons node nodes ih => simp [ih]

end Node

open Node

/-- For every index, the nodes have as many leaves as there are tokens with a
text of their own, or more, but not more than there are tokens. -/
def Counted (tokens : List Token) (nodes : List Node) : Prop :=
  ∀ index : Nat,
    tokens.countP (fun token => token.type ∈ contentTypes ∧ token.index = index) ≤
        leafCounts index nodes ∧
      leafCounts index nodes ≤ tokens.countP (·.index = index)

theorem counted_nil : Counted [] [] := by
  intro index
  simp

theorem Counted.append {tokens more : List Token} {nodes others : List Node}
    (hfirst : Counted tokens nodes) (hsecond : Counted more others) :
    Counted (tokens ++ more) (nodes ++ others) := by
  intro index
  obtain ⟨hleast, hmost⟩ := hfirst index
  obtain ⟨hleast', hmost'⟩ := hsecond index
  simp only [List.countP_append, leafCounts_append]
  omega

theorem Counted.perm {tokens more : List Token} {nodes : List Node} (h : Counted tokens nodes)
    (hperm : tokens.Perm more) : Counted more nodes := by
  intro index
  rw [← hperm.countP_eq, ← hperm.countP_eq]
  exact h index

theorem counted_leaf {token : Token} {node : Node} (hchildren : node.children = [])
    (hindex : node.tokenIndex = token.index) : Counted [token] [node] := by
  intro index
  simp only [leafCounts_cons, leafCounts_nil, leafCount_leaf hchildren, hindex, Int.natCast_inj,
    List.countP_cons, List.countP_nil]
  by_cases hsame : token.index = index
  · by_cases htype : token.type ∈ contentTypes <;> simp [hsame, htype]
  · simp [hsame]

theorem counted_ofToken (kind : Kind) (token : Token) :
    Counted [token] [.ofToken kind token] :=
  counted_leaf rfl rfl

theorem counted_ofBlock (kind : Kind) (token : Token) :
    Counted [token] [.ofBlock kind token] :=
  counted_leaf rfl rfl

theorem counted_none {token : Token} (h : token.type ∉ contentTypes) : Counted [token] [] := by
  intro index
  simp [h]

theorem counted_mark {token : Token} {sign : Mark} (h : token.type = .mark sign) :
    Counted [token] [] :=
  counted_none (by simp [h])

theorem counted_keyword {token : Token} {word : Keyword} (h : token.type = .keyword word) :
    Counted [token] [] :=
  counted_none (by simp [h])

theorem counted_empty {node : Node} (hchildren : node.children = [])
    (hindex : node.tokenIndex = -1) : Counted [] [node] := by
  intro index
  simp [leafCount_leaf hchildren, hindex]

theorem Counted.above {tokens : List Token} {node : Node} (h : Counted tokens node.children)
    (hsome : node.children ≠ []) : Counted tokens [node] := by
  intro index
  simpa [leafCount_inner hsome] using h index

theorem Counted.under {token : Token} {tokens : List Token} {node : Node}
    (h : Counted tokens node.children) (htype : token.type ∉ contentTypes)
    (hindex : node.tokenIndex = token.index) : Counted (token :: tokens) [node] := by
  by_cases hchildren : node.children = []
  · rw [hchildren] at h
    have hboth := (counted_leaf hchildren hindex).append h
    simpa using hboth
  · exact ((counted_none htype).append h).above hchildren

theorem Counted.settle {tokens : List Token} {nodes : List Node} (h : Counted tokens nodes)
    (token : Token) : Counted tokens (nodes.map (Node.settle token)) := by
  intro index
  rw [leafCounts_settle]
  exact h index

/-! ## Nodes of rules -/

theorem Each.counted {part : List Token → Node → Prop} {tokens : List Token} {nodes : List Node}
    (h : Each part tokens nodes) (hpart : ∀ tokens node, part tokens node → Counted tokens [node]) :
    Counted tokens nodes := by
  induction h with
  | nil => exact counted_nil
  | cons hfirst _ ih => exact (hpart _ _ hfirst).append ih

theorem Maybe.counted {part : List Token → Node → Prop} {tokens : List Token} {nodes : List Node}
    (h : Maybe part tokens nodes)
    (hpart : ∀ tokens node, part tokens node → Counted tokens [node]) : Counted tokens nodes := by
  cases h with
  | none => exact counted_nil
  | some hnode => exact hpart _ _ hnode

theorem After.counted {sign : Mark} {part : List Token → Node → Prop} {tokens : List Token}
    {node : Node} (h : After sign part tokens node)
    (hpart : ∀ tokens node, part tokens node → Counted tokens [node]) :
    Counted tokens [node] := by
  obtain ⟨mark, rest, hmark, hnode, rfl⟩ := h
  exact (counted_mark hmark).append (hpart _ _ hnode)

theorem Before.counted {sign : Mark} {part : List Token → Node → Prop} {tokens : List Token}
    {node : Node} (h : Before sign part tokens node)
    (hpart : ∀ tokens node, part tokens node → Counted tokens [node]) :
    Counted tokens [node] := by
  obtain ⟨mark, rest, hmark, hnode, rfl⟩ := h
  exact (hpart _ _ hnode).append (counted_mark hmark)

theorem Listed.counted {type : Terminal} {tokens names : List Token}
    (h : Listed type tokens names) : Counted tokens (names.map (.ofToken .id)) := by
  induction h with
  | nil => exact counted_nil
  | cons hcomma hname _ ih =>
      exact (counted_mark hcomma).append ((counted_ofToken _ _).append ih)

theorem ScopeNames.counted {tokens names : List Token} (h : ScopeNames tokens names) :
    Counted tokens (names.map (.ofToken .id)) := by
  cases h with
  | none => exact counted_nil
  | @some name _ _ _ _ hnames hsemicolon =>
      have hall := ((counted_ofToken .id name).append hnames.counted).append
        (counted_mark hsemicolon)
      simpa using hall

def Grammar.Rule.unfinished : Rule → Bool
  | .grammarHead => true
  | .altList => true
  | _ => false

def Leaves (rule : Rule) (tokens : List Token) (node : Node) : Prop :=
  if rule.unfinished = true then node.children ≠ [] ∧ Counted tokens node.children
  else Counted tokens [node]

theorem Kinded.counted {rule : Rule} {tokens : List Token} {node : Node}
    (h : Kinded Leaves rule tokens node) (hrule : rule.unfinished = false) :
    Counted tokens [node] := by
  have hleaves := h.1
  rwa [Leaves, if_neg (by simp [hrule])] at hleaves

theorem InOrder.counted {rules : List Rule} {tokens : List Token} {nodes : List Node}
    (h : InOrder (Kinded Leaves) rules tokens nodes)
    (hrules : ∀ rule ∈ rules, rule.unfinished = false) : Counted tokens nodes := by
  induction h with
  | nil => exact counted_nil
  | skip _ ih => exact ih fun rule hrule => hrules rule (List.mem_cons_of_mem _ hrule)
  | take hfirst _ ih =>
      exact (hfirst.counted (hrules _ List.mem_cons_self)).append
        (ih fun rule hrule => hrules rule (List.mem_cons_of_mem _ hrule))

theorem ruleTokens_perm (name : Token) (modifier parts actions : List Token) (colon : Token)
    (body : List Token) (semicolon : Token) (catches final : List Token) :
    ([name] ++ modifier ++ parts ++ actions ++ [colon] ++ body ++ catches ++ final ++
        [semicolon]).Perm
      (modifier ++ name :: parts ++ actions ++ colon :: body ++ semicolon :: catches ++ final) := by
  rw [List.perm_iff_count]
  intro token
  simp only [List.count_append, List.count_cons, List.count_nil]
  omega

theorem leaves_ruleSpec {own : List Token} {node : Node}
    (h : Assembles (Kinded Leaves) .ruleSpec own node) :
    Leaves .ruleSpec own node := by
  cases h with
  | @ruleSpec name colon semicolon body block modifier parts actions catches final hmodifier _
      hparts hactions hcolon hbody hsemicolon hcatches hfinal =>
      obtain ⟨hsome, hblock⟩ := hbody.1
      have hmodified := hmodifier.counted fun _ _ hpart => hpart.counted rfl
      have hheading := hparts.counted (by decide)
      have hsections := hactions.counted fun _ _ hpart => hpart.counted rfl
      have hplaced : Counted body [block.anchor colon] :=
        Counted.above (hblock.settle colon) (by simpa using hsome)
      have hhandlers := hcatches.counted fun _ _ hpart => hpart.counted rfl
      have hlast := hfinal.counted fun _ _ hpart => hpart.counted rfl
      have hend : Counted [semicolon] [endNode semicolon] := counted_leaf rfl rfl
      have hbelow : Counted
          ([name] ++ modifier.1 ++ parts.1 ++ actions.1 ++ [colon] ++ body ++ catches.1 ++
            final.1 ++ [semicolon])
          ([.ofToken .id name] ++ modifier.2 ++ parts.2 ++ actions.2 ++ [] ++
            [block.anchor colon] ++ catches.2 ++ final.2 ++ [endNode semicolon]) :=
        ((((((((counted_ofToken _ name).append hmodified).append hheading).append
          hsections).append (counted_mark hcolon)).append hplaced).append hhandlers).append
            hlast).append hend
      have hordered := hbelow.perm (ruleTokens_perm name modifier.1 parts.1 actions.1 colon body
        semicolon catches.1 final.1)
      exact Counted.above (by simpa using hordered) (by simp)

theorem inductive_leaves : Inductive Leaves := by
  intro rule tokens node h
  have hnode := h
  cases h with
  | @grammarFile head before rules root sections parts hhead hsections hrules =>
      obtain ⟨hsome, hcounted⟩ := hhead.1
      have hbefore := hsections.counted fun _ _ hpart => hpart.counted rfl
      have hafter := hrules.counted fun _ _ hpart => hpart.counted rfl
      have hall : Counted (head ++ before ++ rules)
          (root.addChildren (sections ++ parts)).children := by
        rw [Node.addChildren_children, ← List.append_assoc]
        exact (hcounted.append hbefore).append hafter
      exact hall.above (by simp [hsome])
  | @grammarHead keyword name semicolon hkeyword _ hsemicolon =>
      exact ⟨by simp, (counted_keyword hkeyword).append ((counted_ofToken .id name).append
        (counted_mark hsemicolon))⟩
  | @typedHead type keyword name semicolon _ htype _ hkeyword _ hsemicolon =>
      have hword : type.type ∉ contentTypes := by
        intro hmember
        simp only [List.mem_cons, List.not_mem_nil, or_false] at htype
        rcases htype with htype | htype | htype <;> simp [htype] at hmember
      exact ⟨by simp, (counted_none hword).append ((counted_keyword hkeyword).append
        ((counted_ofToken .id name).append (counted_mark hsemicolon)))⟩
  | prequel hrule hpart =>
      simp only [List.mem_cons, List.not_mem_nil, or_false] at hrule
      rcases hrule with rfl | rfl | rfl | rfl | rfl <;> exact hpart.counted rfl
  | @optionsSpec keyword left right inner entries hkeyword hleft hright hentries =>
      have hinner := hentries.counted fun _ _ hpart => hpart.counted rfl
      have hall := ((counted_mark hleft).append hinner).append (counted_mark hright)
      exact Counted.under (by simpa using hall) (by simp [hkeyword]) rfl
  | @option key sign value semicolon _ hsign _ hsemicolon =>
      exact ((counted_ofToken _ key).append ((counted_mark hsign).append
        ((counted_ofToken _ value).append (counted_mark hsemicolon)))).above (by simp)
  | @importSpec keyword semicolon first more delegate delegates hkeyword hfirst hmore hsemicolon =>
      have hothers := hmore.counted fun _ _ hpart =>
        hpart.counted fun _ _ hnode => hnode.counted rfl
      have hall := (((counted_keyword hkeyword).append (hfirst.counted rfl)).append hothers).append
        (counted_mark hsemicolon)
      have hbelow : Counted (keyword :: first ++ more ++ [semicolon])
          ((Node.ofToken .imports keyword).addChildren (delegate :: delegates)).children := by
        simpa using hall
      exact hbelow.above (by simp)
  | delegate => exact counted_ofToken _ _
  | @renamed short sign name _ hsign =>
      exact ((counted_ofToken _ short).append ((counted_mark hsign).append
        (counted_ofToken _ name))).above (by simp)
  | @tokensSpec keyword left right inner entries hkeyword hleft hright hentries =>
      have hinner := hentries.counted fun _ _ hpart => hpart.counted rfl
      have hall := ((counted_mark hleft).append hinner).append (counted_mark hright)
      exact Counted.under (by simpa using hall) (by simp [hkeyword]) rfl
  | @imaginary name semicolon _ hsemicolon =>
      exact (counted_ofToken _ name).append (counted_mark hsemicolon)
  | @tokenSpec name sign literal semicolon _ hsign _ hsemicolon =>
      exact ((counted_ofToken _ name).append ((counted_mark hsign).append
        ((counted_ofToken _ literal).append (counted_mark hsemicolon)))).above (by simp)
  | @grammarScope keyword name action hkeyword =>
      exact ((counted_keyword hkeyword).append ((counted_ofToken _ name).append
        (counted_ofBlock _ action))).above (by simp)
  | @actionSpec sign name action hsign =>
      exact ((counted_mark hsign).append ((counted_ofToken _ name).append
        (counted_ofBlock _ action))).above (by simp)
  | @scopedAction sign scope colons name action hsign _ hcolons =>
      exact ((counted_mark hsign).append ((counted_ofToken _ scope).append
        ((counted_mark hcolons).append ((counted_ofToken _ name).append
          (counted_ofBlock _ action))))).above (by simp)
  | ruleSpec => exact leaves_ruleSpec hnode
  | @ruleModifier word kind hkind => exact counted_ofToken _ _
  | ruleBang => exact counted_ofToken _ _
  | ruleArgs => exact counted_ofBlock _ _
  | @returnsSpec keyword args hkeyword =>
      exact ((counted_keyword hkeyword).append (counted_ofBlock _ args)).above (by simp)
  | @throwsSpec keyword name _ _ hkeyword _ hnames =>
      exact ((counted_keyword hkeyword).append ((counted_ofToken _ name).append
        hnames.counted)).above (by simp)
  | @ruleScope keyword actions inner names hkeyword hcount hactions hnames =>
      have hblocks : Counted actions (actions.map (.ofBlock .action)) := by
        match actions, hcount with
        | [], _ => exact counted_nil
        | [action], _ => exact counted_ofBlock _ action
      exact Counted.under (hblocks.append hnames.counted) (by simp [hkeyword]) rfl
  | @catchClause keyword args action hkeyword =>
      exact ((counted_keyword hkeyword).append ((counted_ofBlock _ args).append
        (counted_ofBlock _ action))).above (by simp)
  | @finallyClause keyword action hkeyword =>
      exact ((counted_keyword hkeyword).append (counted_ofBlock _ action)).above (by simp)
  | altList hfirst hmore =>
      have hothers := hmore.counted fun _ _ hpart =>
        hpart.counted fun _ _ hnode => hnode.counted rfl
      exact ⟨by simp, (hfirst.counted rfl).append hothers⟩
  | @alternative _ elements helements =>
      have hinner := helements.counted fun _ _ hpart => hpart.counted rfl
      cases helements with
      | nil => exact counted_empty rfl rfl
      | @cons first more node nodes =>
          have hchildren := Assemble.alternative_children (node :: nodes)
          exact Counted.above (by rwa [hchildren]) (by rw [hchildren]; simp)
  | element hrule hpart =>
      simp only [List.mem_cons, List.not_mem_nil, or_false] at hrule
      rcases hrule with rfl | rfl <;> exact hpart.counted rfl
  | @subrule opening closing kind options body block hopening hoptions hbody hclosing =>
      obtain ⟨hsome, hblock⟩ := hbody.1
      have hmarks : ∀ type ∈ [Terminal.mark .treeBegin, .mark .leftParen], type ∉ contentTypes := by
        simp
      have hmark := hmarks _ (opening_mem hopening).1
      have hsettings := hoptions.counted fun _ _ hpart =>
        hpart.counted fun _ _ hnode => hnode.counted rfl
      have hall := (((counted_none hmark).append (hsettings.append hblock)).append
        (counted_mark hclosing)).settle opening
      exact Counted.above (by simpa using hall) (by simp [hsome])
  | atom hnode =>
      rcases atom_cases hnode with ⟨kind, -, -, -, rfl⟩ | ⟨-, rfl⟩ | ⟨-, rfl⟩
      · exact counted_ofToken _ _
      · exact counted_ofBlock _ _
      · exact counted_ofBlock _ _

theorem Covers.countP_index_le {before taken rest : List Char} {index : Nat}
    {tokens : List Token} (h : Covers before index tokens taken rest) (place : Nat) :
    tokens.countP (·.index = place) ≤ 1 := by
  induction h with
  | none => simp
  | trivia _ _ ih => exact ih
  | @token _ _ _ token tokens _ _ _ hmore ih =>
      by_cases hplace : token.index = place
      · have hothers : tokens.countP (·.index = place) = 0 := by
          rw [List.countP_eq_zero]
          intro other hother
          obtain ⟨later, hlater⟩ := List.mem_iff_getElem?.1 hother
          have := hmore.index_eq hlater
          simp only [decide_eq_true_eq]
          omega
        simp [hothers, hplace]
      · simpa [List.countP_cons, hplace] using ih

theorem Source.leafCount_eq_one {text : String} {file : Option String} {source : Source}
    (h : Source.parse text file = .ok source) {token : Token}
    (htoken : token ∈ source.tokens.toList) (htype : token.type ∈ contentTypes) :
    source.root.leafCount token.index = 1 := by
  have hcounted : Counted source.tokens.toList [source.root] := Source.holds_root inductive_leaves h
  have hunique := (Source.covers h).countP_index_le token.index
  obtain ⟨hleast, hmost⟩ := hcounted token.index
  have hpositive : 0 < source.tokens.toList.countP
      (fun other : Token => other.type ∈ contentTypes ∧ other.index = token.index) :=
    List.countP_pos_iff.2 ⟨token, htoken, by simp [htype]⟩
  simp only [leafCounts_cons, leafCounts_nil] at hleast hmost
  omega

end GrammarLint
