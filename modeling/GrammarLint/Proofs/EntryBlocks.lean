import Mathlib.Data.List.Forall2
import GrammarLint.Proofs.Shape
import GrammarLint.Proofs.Sites

/-!
# Blocks of entries in the tokens

The options and tokens blocks of a text can be read off its tokens alone: a keyword opens
a block, and the parentheses that are open before it say how deep in subrules it is.  The
blocks in the tokens are those in the tree, in the same order and with the same entries.
-/

namespace GrammarLint

open Grammar

/-! ## Blocks of tokens -/

inductive Entry where
  | pair (key sign value : Token)
  | single (name : Token)
  deriving DecidableEq, Repr

def entriesFrom : List Token → List Entry
  | name :: next :: rest =>
      if name.type = .identifier then
        match next.type, rest with
        | .mark .assign, value :: _ :: more => .pair name next value :: entriesFrom more
        | .mark .semicolon, more => .single name :: entriesFrom more
        | _, _ => []
      else []
  | _ => []

/-- A block of a text: the keyword that opens it, the number of subrules around it, and
its entries. -/
structure EntryBlock where
  word : Keyword
  depth : Nat
  entries : List Entry
  deriving DecidableEq, Repr

/-- The blocks in a list of tokens, inside `depth` open parentheses. -/
def blocksFrom : (depth : Nat) → List Token → List EntryBlock
  | _, [] => []
  | depth, token :: tokens =>
      match token.type with
      | .keyword .options => ⟨.options, depth, entriesFrom tokens.tail⟩ :: blocksFrom depth tokens
      | .keyword .tokens => ⟨.tokens, depth, entriesFrom tokens.tail⟩ :: blocksFrom depth tokens
      | .mark .leftParen | .mark .treeBegin => blocksFrom (depth + 1) tokens
      | .mark .rightParen => blocksFrom (depth - 1) tokens
      | _ => blocksFrom depth tokens

def Source.blocks (source : Source) : List EntryBlock :=
  blocksFrom 0 source.tokens.toList

/-! ## Blocks of nodes -/

/-- A block in a tree: its kind, the kind of the node above it, and its entries. -/
structure Listing where
  kind : Kind
  parent : Option Kind
  entries : List Node

def listingKinds : List Kind :=
  [.options, .tokens]

def Site.listing (site : Site) : Listing :=
  ⟨site.node.kind, site.parent?.map Node.kind, site.node.children⟩

def Site.listing? (site : Site) : Option Listing :=
  if site.node.kind ∈ listingKinds then some site.listing else none

def Source.listings (source : Source) : List Listing :=
  source.sites.filterMap Site.listing?

namespace Node

mutual

def listings (parent : Option Kind) : Node → List Listing
  | ⟨kind, _, _, _, _, children⟩ =>
      (if kind ∈ listingKinds then [⟨kind, parent, children⟩] else []) ++
        listingsAll (some kind) children

def listingsAll (parent : Option Kind) : List Node → List Listing
  | [] => []
  | node :: nodes => listings parent node ++ listingsAll parent nodes

end

theorem listings_eq (parent : Option Kind) (node : Node) :
    node.listings parent =
      (if node.kind ∈ listingKinds then [⟨node.kind, parent, node.children⟩] else []) ++
        node.children.flatMap (listings (some node.kind)) := by
  have hchildren (nodes : List Node) (parent : Option Kind) :
      listingsAll parent nodes = nodes.flatMap (listings parent) := by
    induction nodes with
    | nil => rfl
    | cons node nodes ih => rw [listingsAll, List.flatMap_cons, ih]
  cases node
  rw [listings, hchildren]

theorem listings_of_plain {node : Node} (h : node.kind ∉ listingKinds) (parent : Option Kind) :
    node.listings parent = node.children.flatMap (listings (some node.kind)) := by
  rw [listings_eq, if_neg h, List.nil_append]

@[simp] theorem listings_settle (parent : Option Kind) (token : Token) (node : Node) :
    (node.settle token).listings parent = node.listings parent := by
  rw [listings_eq, listings_eq, settle_kind, settle_children]

theorem flatMap_settle (parent : Option Kind) (token : Token) (nodes : List Node) :
    (nodes.map (settle token)).flatMap (listings parent) = nodes.flatMap (listings parent) := by
  simp [List.flatMap_map]

mutual

theorem filterMap_sites : (node : Node) → (above : List (Node × Nat)) →
    (node.sites above).filterMap Site.listing? =
      node.listings (above.head?.map fun step => step.1.kind)
  | ⟨kind, text, line, column, tokenIndex, children⟩, above => by
      have hparent : (Site.mk ⟨kind, text, line, column, tokenIndex, children⟩ above).parent?.map
          Node.kind = above.head?.map fun step => step.1.kind := Option.map_map _ _ _
      rw [sites, listings, List.filterMap_cons, filterMap_sitesFrom children, Site.listing?,
        Site.listing, hparent]
      split <;> simp_all

theorem filterMap_sitesFrom : (nodes : List Node) → (above : List (Node × Nat)) →
    (parent : Node) → (index : Nat) →
      (sitesFrom above parent index nodes).filterMap Site.listing? =
        listingsAll (some parent.kind) nodes
  | [], _, _, _ => rfl
  | node :: nodes, above, parent, index => by
      rw [sitesFrom, List.filterMap_append, filterMap_sites node, filterMap_sitesFrom nodes,
        listingsAll]
      rfl

end

end Node

theorem Source.listings_eq (source : Source) : source.listings = source.root.listings none :=
  source.root.filterMap_sites []

/-! ## The same blocks -/

/-- The node of an entry of a block.  Only a token may be without a value. -/
inductive EntryOf : Keyword → Entry → Node → Prop where
  | pair {word : Keyword} {key sign value : Token} {left right : Kind} :
      EntryOf word (.pair key sign value)
        (Assemble.pair sign (.ofToken left key) (.ofToken right value))
  | single {name : Token} : EntryOf .tokens (.single name) (.ofToken .tokenRef name)

/-- Options outside of subrules are those right below a grammar or a rule. -/
def Level (depth : Nat) (parent : Option Kind) : Prop :=
  depth = 0 ↔ ∃ kind ∈ Kind.grammars ++ [.rule], parent = some kind

inductive Matches : EntryBlock → Listing → Prop where
  | options {depth : Nat} {parent : Option Kind} {entries : List Entry} {nodes : List Node}
      (hlevel : Level depth parent) (hentries : List.Forall₂ (EntryOf .options) entries nodes) :
      Matches ⟨.options, depth, entries⟩ ⟨.options, parent, nodes⟩
  | tokens {kind : Kind} {entries : List Entry} {nodes : List Node}
      (hkind : kind ∈ Kind.grammars) (hentries : List.Forall₂ (EntryOf .tokens) entries nodes) :
      Matches ⟨.tokens, 0, entries⟩ ⟨.tokens, some kind, nodes⟩

/-- The blocks in the tokens, whatever follows them, are the given ones. -/
def Tells (depth : Nat) (own : List Token) (listings : List Listing) : Prop :=
  ∀ rest, ∃ blocks, blocksFrom depth (own ++ rest) = blocks ++ blocksFrom depth rest ∧
    List.Forall₂ Matches blocks listings

def bracketTypes : List Terminal :=
  [.keyword .options, .keyword .tokens, .mark .leftParen, .mark .treeBegin, .mark .rightParen]

section Tokens

variable {depth : Nat} {own more : List Token} {found others : List Listing}

theorem blocksFrom_calm {token : Token} (h : token.type ∉ bracketTypes) (tokens : List Token) :
    blocksFrom depth (token :: tokens) = blocksFrom depth tokens := by
  rw [blocksFrom]
  split <;> simp_all [bracketTypes]

theorem Tells.nil : Tells depth [] [] :=
  fun _ => ⟨[], rfl, .nil⟩

theorem Tells.append (h : Tells depth own found) (hmore : Tells depth more others) :
    Tells depth (own ++ more) (found ++ others) := by
  intro rest
  obtain ⟨second, hsecond, hothers⟩ := hmore rest
  obtain ⟨first, hfirst, hfound⟩ := h (more ++ rest)
  refine ⟨first ++ second, ?_, List.rel_append hfound hothers⟩
  rw [List.append_assoc, hfirst, hsecond, List.append_assoc]

theorem tells_calm (h : ∀ token ∈ own, token.type ∉ bracketTypes) : Tells depth own [] := by
  induction own with
  | nil => exact .nil
  | cons token own ih =>
      obtain ⟨hfirst, hothers⟩ := List.forall_mem_cons.1 h
      intro rest
      rw [List.cons_append, blocksFrom_calm hfirst]
      exact ih hothers rest

theorem Tells.cons {token : Token} (h : Tells depth own found) (hcalm : token.type ∉ bracketTypes) :
    Tells depth (token :: own) found := by
  have htoken : Tells depth [token] [] := tells_calm (by simpa using hcalm)
  exact htoken.append h

theorem Tells.within {opening closing : Token} (h : Tells (depth + 1) own found)
    (hopening : opening.type ∈ [Terminal.mark .treeBegin, .mark .leftParen])
    (hclosing : closing.type = .mark .rightParen) :
    Tells depth (opening :: own ++ [closing]) found := by
  intro rest
  obtain ⟨blocks, hblocks, hmatches⟩ := h (closing :: rest)
  refine ⟨blocks, ?_, hmatches⟩
  have hopen : blocksFrom depth (opening :: (own ++ closing :: rest)) =
      blocksFrom (depth + 1) (own ++ closing :: rest) := by
    simp only [List.mem_cons, List.not_mem_nil, or_false] at hopening
    rcases hopening with htype | htype <;> rw [blocksFrom, htype]
  have hclose : blocksFrom (depth + 1) (closing :: rest) = blocksFrom depth rest := by
    rw [blocksFrom, hclosing]
    rfl
  simp only [List.cons_append, List.append_assoc, List.nil_append]
  rw [hopen, hblocks, hclose]

/-! ## Entries -/

/-- An entry with the semicolon after it, and the node of the entry. -/
inductive IsEntry : Keyword → List Token → Node → Prop where
  | pair {word : Keyword} {key sign value semicolon : Token} {left right : Kind}
      (hkey : key.type = .identifier) (hsign : sign.type = .mark .assign)
      (hvalue : value.type ∉ bracketTypes)
      (hsemicolon : semicolon.type = .mark .semicolon) (hleft : left ∉ listingKinds)
      (hright : right ∉ listingKinds) :
      IsEntry word [key, sign, value, semicolon]
        (Assemble.pair sign (.ofToken left key) (.ofToken right value))
  | single {name semicolon : Token} (hname : name.type = .identifier)
      (hsemicolon : semicolon.type = .mark .semicolon) :
      IsEntry .tokens [name, semicolon] (.ofToken .tokenRef name)

theorem IsEntry.calm {word : Keyword} {node : Node} (h : IsEntry word own node) :
    ∀ token ∈ own, token.type ∉ bracketTypes := by
  cases h with
  | pair hkey hsign hvalue hsemicolon _ _ =>
      simpa [hkey, hsign, hsemicolon, bracketTypes] using hvalue
  | single hname hsemicolon => simp [hname, hsemicolon, bracketTypes]

theorem IsEntry.listings {word : Keyword} {node : Node} (h : IsEntry word own node)
    (parent : Option Kind) :
    node.listings parent = [] := by
  cases h with
  | pair _ _ _ _ hleft hright =>
      have hkind : Kind.assign ∉ listingKinds := by decide
      simp [Node.listings_eq, hkind, hleft, hright]
  | single =>
      have hkind : Kind.tokenRef ∉ listingKinds := by decide
      simp [Node.listings_eq, hkind]

theorem Each.entries {word : Keyword} {part : List Token → Node → Prop} {nodes : List Node}
    {right : Token} (h : Each part own nodes)
    (hpart : ∀ {own node}, part own node → IsEntry word own node)
    (hright : right.type = .mark .rightBrace) (rest : List Token) :
    (∀ token ∈ own, token.type ∉ bracketTypes) ∧
      List.Forall₂ (EntryOf word) (entriesFrom (own ++ right :: rest)) nodes := by
  induction h with
  | nil =>
      have hnone : entriesFrom (right :: rest) = [] := by
        cases rest with
        | nil => rfl
        | cons next rest =>
            unfold entriesFrom
            exact if_neg (by simp [hright])
      rw [List.nil_append, hnone]
      exact ⟨by simp, .nil⟩
  | cons hfirst _ ih =>
      have hentry := hpart hfirst
      refine ⟨List.forall_mem_append.2 ⟨hentry.calm, ih.1⟩, ?_⟩
      cases hentry with
      | pair hkey hsign =>
          simp only [List.cons_append, List.nil_append, entriesFrom, hkey, hsign, if_true]
          exact .cons .pair ih.2
      | single hname hsemicolon =>
          simp only [List.cons_append, List.nil_append, entriesFrom, hname, hsemicolon, if_true]
          exact .cons .single ih.2

theorem tells_block {word : Keyword} {kind : Kind} {part : List Token → Node → Prop}
    {keyword left right : Token} {nodes : List Node} {parent : Option Kind}
    (hkind : (word, kind) ∈ [(Keyword.options, Kind.options), (.tokens, .tokens)])
    (hkeyword : keyword.type = .keyword word) (hleft : left.type = .mark .leftBrace)
    (hright : right.type = .mark .rightBrace)
    (hentries : Each part own nodes)
    (hpart : ∀ {own node}, part own node → IsEntry word own node)
    (hmatches : ∀ entries, List.Forall₂ (EntryOf word) entries nodes →
      Matches ⟨word, depth, entries⟩ ⟨kind, parent, nodes⟩) :
    Tells depth (keyword :: left :: own ++ [right])
      (((Node.ofToken kind keyword).addChildren nodes).listings parent) := by
  have hplain : nodes.flatMap (Node.listings (some kind)) = [] := by
    rw [List.flatMap_eq_nil_iff]
    intro node hnode
    obtain ⟨_, -, hnode⟩ := hentries.mem hnode
    exact (hpart hnode).listings _
  have hlistings : ((Node.ofToken kind keyword).addChildren nodes).listings parent =
      [⟨kind, parent, nodes⟩] := by
    rw [Node.listings_eq]
    simp only [List.mem_cons, Prod.mk.injEq, List.not_mem_nil, or_false] at hkind
    rcases hkind with ⟨-, rfl⟩ | ⟨-, rfl⟩ <;> simpa [listingKinds] using hplain
  rw [hlistings]
  intro rest
  obtain ⟨hcalm, hsame⟩ := hentries.entries hpart hright rest
  have hopen : blocksFrom depth (keyword :: (left :: own ++ [right] ++ rest)) =
      ⟨word, depth, entriesFrom (own ++ right :: rest)⟩ ::
        blocksFrom depth (left :: own ++ [right] ++ rest) := by
    simp only [List.mem_cons, Prod.mk.injEq, List.not_mem_nil, or_false] at hkind
    rcases hkind with ⟨rfl, -⟩ | ⟨rfl, -⟩ <;> simp [blocksFrom, hkeyword]
  have hinner : ∀ token ∈ left :: own ++ [right], token.type ∉ bracketTypes := by
    simp only [List.cons_append, List.forall_mem_cons, List.forall_mem_append]
    exact ⟨by simp [hleft, bracketTypes], hcalm, by simp [hright, bracketTypes]⟩
  obtain ⟨_, hclose, hnone⟩ := @tells_calm depth _ hinner rest
  cases hnone
  exact ⟨[⟨word, depth, _⟩], hopen.trans (congrArg _ hclose), .cons (hmatches _ hsame) .nil⟩

/-! ## Nodes of rules -/

def Quiet (own : List Token) (node : Node) : Prop :=
  (∀ token ∈ own, token.type ∉ bracketTypes) ∧ ∀ parent, node.listings parent = []

theorem Quiet.tells {node : Node} (h : Quiet own node) (parent : Option Kind) :
    Tells depth own (node.listings parent) := by
  rw [h.2]
  exact tells_calm h.1

theorem quiet_of_children {node : Node} (hcalm : ∀ token ∈ own, token.type ∉ bracketTypes)
    (hkind : node.kind ∉ listingKinds)
    (hchildren : ∀ child ∈ node.children, ∀ parent, child.listings parent = []) :
    Quiet own node := by
  refine ⟨hcalm, fun parent => ?_⟩
  rw [Node.listings_of_plain hkind, List.flatMap_eq_nil_iff]
  exact fun child hchild => hchildren child hchild _

def Bare (node : Node) : Prop :=
  node.kind ∉ listingKinds ∧ node.children = []

theorem Bare.listings {node : Node} (h : Bare node) (parent : Option Kind) :
    node.listings parent = [] := by
  rw [Node.listings_of_plain h.1, h.2, List.flatMap_nil]

theorem quiet_of_leaves {node : Node} (hcalm : ∀ token ∈ own, token.type ∉ bracketTypes)
    (hkind : node.kind ∉ listingKinds) (hchildren : ∀ child ∈ node.children, Bare child) :
    Quiet own node :=
  quiet_of_children hcalm hkind fun child hchild => (hchildren child hchild).listings

/-- What is known of the blocks in the tokens of a rule and in its node.  Where the node of
a rule stands decides the level of its blocks; the alternatives of a block are given to
another node. -/
def ListedIn : Rule → List Token → Node → Prop
  | .option => IsEntry .options
  | .tokenSpec => IsEntry .tokens
  | .optionsSpec => fun own node =>
      ∀ depth parent, Level depth parent → Tells depth own (node.listings parent)
  | .tokensSpec | .prequel => fun own node =>
      ∀ kind ∈ Kind.grammars, Tells 0 own (node.listings (some kind))
  | .grammarFile | .ruleSpec => fun own node => ∀ parent, Tells 0 own (node.listings parent)
  | .altList => fun own node =>
      ∀ depth parent, Tells depth own (node.children.flatMap (Node.listings parent))
  | .alternative | .element | .subrule => fun own node =>
      ∀ depth parent, Tells depth own (node.listings parent)
  | _ => Quiet

section Parts

variable {part : List Token → Node → Prop} {nodes : List Node} {parent : Option Kind}

theorem Each.tells (h : Each part own nodes)
    (hpart : ∀ {own node}, part own node → Tells depth own (node.listings parent)) :
    Tells depth own (nodes.flatMap (Node.listings parent)) := by
  induction h with
  | nil => exact .nil
  | cons hfirst _ ih => exact (hpart hfirst).append ih

theorem Maybe.tells (h : Maybe part own nodes)
    (hpart : ∀ {own node}, part own node → Tells depth own (node.listings parent)) :
    Tells depth own (nodes.flatMap (Node.listings parent)) := by
  cases h with
  | none => exact .nil
  | some hnode => simpa using hpart hnode

theorem Each.calm (h : Each part own nodes) (hpart : ∀ own node, part own node → Quiet own node) :
    ∀ token ∈ own, token.type ∉ bracketTypes := by
  induction h with
  | nil => simp
  | cons hfirst _ ih => exact List.forall_mem_append.2 ⟨(hpart _ _ hfirst).1, ih⟩

theorem InOrder.tells {part : Rule → List Token → Node → Prop} {rules : List Rule}
    (h : InOrder part rules own nodes)
    (hpart : ∀ rule ∈ rules, ∀ {own node}, part rule own node →
      Tells depth own (node.listings parent)) :
    Tells depth own (nodes.flatMap (Node.listings parent)) := by
  induction h with
  | nil => exact .nil
  | skip _ ih => exact ih fun rule hrule => hpart rule (List.mem_cons_of_mem _ hrule)
  | take hfirst _ ih =>
      exact (hpart _ List.mem_cons_self hfirst).append
        (ih fun rule hrule => hpart rule (List.mem_cons_of_mem _ hrule))

theorem Listed.calm {type : Terminal} {tokens names : List Token} (h : Listed type tokens names)
    (htype : type ∉ bracketTypes) : ∀ token ∈ tokens, token.type ∉ bracketTypes := by
  induction h with
  | nil => simp
  | cons hcomma hname _ ih =>
      exact List.forall_mem_cons.2 ⟨by simp [hcomma, bracketTypes],
        List.forall_mem_cons.2 ⟨hname ▸ htype, ih⟩⟩

theorem ScopeNames.calm {tokens names : List Token} (h : ScopeNames tokens names) :
    ∀ token ∈ tokens, token.type ∉ bracketTypes := by
  cases h with
  | none => simp
  | some hname hnames hsemicolon =>
      simp only [List.cons_append, List.forall_mem_cons, List.forall_mem_append]
      exact ⟨by simp [hname, bracketTypes], hnames.calm (by decide),
        by simp [hsemicolon, bracketTypes]⟩

end Parts

theorem quiet_atom {token : Token} {node : Node} (h : Assemble.atom [.token token] = some node) :
    Quiet [token] node := by
  have hkind : ∀ kind ∈ atomKinds, kind ∉ listingKinds := by decide
  constructor
  · refine List.forall_mem_singleton.2 fun htype => ?_
    simp only [bracketTypes, List.mem_cons, List.not_mem_nil, or_false] at htype
    rcases htype with htype | htype | htype | htype | htype <;>
      simp [Assemble.atom, htype, operatorKind?] at h
  · intro parent
    obtain ⟨hmember, hchildren⟩ := Shape.leaf_atom h
    rw [Node.listings_of_plain (hkind _ hmember), hchildren, List.flatMap_nil]

end Tokens

theorem tells_heading {rule : Rule} (hrule : rule ∈ headParts) {own : List Token} {node : Node}
    (h : Kinded ListedIn rule own node) : Tells 0 own (node.listings (some .rule)) := by
  have hlevel : Level 0 (some .rule) := by simp [Level]
  simp only [headParts, List.mem_cons, List.not_mem_nil, or_false] at hrule
  rcases hrule with rfl | rfl | rfl | rfl | rfl | rfl
  · exact Quiet.tells h.1 _
  · exact Quiet.tells h.1 _
  · exact Quiet.tells h.1 _
  · exact Quiet.tells h.1 _
  · exact h.1 0 _ hlevel
  · exact Quiet.tells h.1 _

theorem level_grammar {kind : Kind} (h : kind ∈ Kind.grammars) : Level 0 (some kind) := by
  simp [Level, h]

theorem level_subrule {kind : Kind} (h : kind ∈ [Kind.block, .treeBegin]) (depth : Nat) :
    Level (depth + 1) (some kind) := by
  have hkind : ∀ kind ∈ [Kind.block, .treeBegin], kind ∉ Kind.grammars ++ [.rule] := by decide
  simpa [Level] using hkind kind h

theorem listed_grammarFile {own : List Token} {node : Node}
    (h : Assembles (Kinded ListedIn) .grammarFile own node) : ListedIn .grammarFile own node := by
  cases h with
  | @grammarFile head before rules root sections parts hhead hsections hrules =>
      intro parent
      have hgrammar : root.kind ∈ Kind.grammars := hhead.2
      have hkind : ∀ kind ∈ Kind.grammars, kind ∉ listingKinds := by decide
      have hplain := hkind _ hgrammar
      have hroot : Tells 0 head (root.listings none) := Quiet.tells hhead.1 none
      rw [Node.listings_of_plain hplain] at hroot
      rw [@Node.listings_of_plain (root.addChildren _) hplain, Node.addChildren_children,
        Node.addChildren_kind, List.flatMap_append, List.flatMap_append, ← List.append_assoc]
      refine (hroot.append ?_).append ?_
      · exact hsections.tells fun hpart => hpart.1 _ hgrammar
      · exact hrules.tells fun hpart => hpart.1 _

theorem listed_ruleSpec {own : List Token} {node : Node}
    (h : Assembles (Kinded ListedIn) .ruleSpec own node) : ListedIn .ruleSpec own node := by
  cases h with
  | @ruleSpec name colon semicolon body block modifier parts actions catches final hmodifier hname
      hparts hactions hcolon hbody hsemicolon hcatches hfinal =>
      intro parent
      have hblock : block.kind = .block := by simpa [Rule.kinds] using hbody.2
      have hplain : block.kind ∉ listingKinds := by simp [hblock, listingKinds]
      have hwords : Tells 0 modifier.1 (modifier.2.flatMap (Node.listings (some .rule))) :=
        hmodifier.tells fun hpart => Quiet.tells hpart.1 _
      have hheading := hparts.tells fun rule hrule => tells_heading hrule
      have hsections : Tells 0 actions.1 (actions.2.flatMap (Node.listings (some .rule))) :=
        hactions.tells fun hpart => Quiet.tells hpart.1 _
      have hhandlers : Tells 0 catches.1 (catches.2.flatMap (Node.listings (some .rule))) :=
        hcatches.tells fun hpart => Quiet.tells hpart.1 _
      have hlast : Tells 0 final.1 (final.2.flatMap (Node.listings (some .rule))) :=
        hfinal.tells fun hpart => Quiet.tells hpart.1 _
      have hinner := hbody.1 0 (some block.kind)
      have hnamed : name.type ∉ bracketTypes := by simp [hname, bracketTypes]
      have hopened : colon.type ∉ bracketTypes := by simp [hcolon, bracketTypes]
      have hclosed : semicolon.type ∉ bracketTypes := by simp [hsemicolon, bracketTypes]
      have hall := ((((hwords.append (hheading.cons hnamed)).append hsections).append
        (hinner.cons hopened)).append (hhandlers.cons hclosed)).append hlast
      have hanchored (parent : Option Kind) : (block.anchor colon).listings parent =
          block.children.flatMap (Node.listings (some block.kind)) := by
        rw [Node.listings_of_plain (by simpa using hplain), Node.anchor_children,
          Node.flatMap_settle, Node.anchor_kind]
      have hfirst (parent : Option Kind) : (Node.ofToken .id name).listings parent = [] :=
        Bare.listings (by simp [Bare, listingKinds]) parent
      have hend (parent : Option Kind) : (endNode semicolon).listings parent = [] :=
        Bare.listings (by simp [Bare, endNode, listingKinds]) parent
      rw [Node.listings_of_plain (by simp [listingKinds])]
      simpa [hanchored, hfirst, hend, List.flatMap_append, List.append_assoc] using hall

theorem listed_subrule {own : List Token} {node : Node}
    (h : Assembles (Kinded ListedIn) .subrule own node) : ListedIn .subrule own node := by
  cases h with
  | @subrule opening closing kind options body block hopening hoptions hbody hclosing =>
      intro depth parent
      obtain ⟨htype, hkind⟩ := opening_mem hopening
      have hplain : ∀ kind ∈ [Kind.block, .treeBegin], kind ∉ listingKinds := by decide
      have hsettings : Tells (depth + 1) options.1
          (options.2.flatMap (Node.listings (some kind))) := by
        refine hoptions.tells ?_
        rintro _ node ⟨colon, rest, hcolon, hnode, rfl⟩
        have hbefore := hnode.1 (depth + 1) _ (level_subrule hkind depth)
        have hafter : Tells (depth + 1) [colon] [] :=
          tells_calm (by simp [hcolon, bracketTypes])
        simpa using hbefore.append hafter
      have hinner := (hsettings.append (hbody.1 (depth + 1) (some kind))).within htype hclosing
      rw [Node.listings_of_plain (by simpa using hplain kind hkind), Node.anchor_children,
        Node.flatMap_settle]
      simpa using hinner

theorem inductive_listed : Inductive ListedIn := by
  intro rule own node h
  have hnode := h
  cases h with
  | grammarFile => exact listed_grammarFile hnode
  | grammarHead hkeyword hname hsemicolon =>
      exact quiet_of_leaves (by simp [hkeyword, hname, hsemicolon, bracketTypes])
        (by simp [listingKinds]) (by simp [Bare, listingKinds])
  | @typedHead _ _ _ _ kind htype hkind hkeyword hname hsemicolon =>
      have hgrammar : ∀ kind ∈ Kind.grammars, kind ∉ listingKinds := by decide
      simp only [List.mem_cons, List.not_mem_nil, or_false] at htype
      refine quiet_of_leaves ?_ (hgrammar _ (grammarKind?_mem hkind))
        (by simp [Bare, listingKinds])
      rcases htype with htype | htype | htype <;>
        simp [htype, hkeyword, hname, hsemicolon, bracketTypes]
  | prequel hrule hpart =>
      intro kind hkind
      simp only [List.mem_cons, List.not_mem_nil, or_false] at hrule
      rcases hrule with rfl | rfl | rfl | rfl | rfl
      · exact hpart.1 0 _ (level_grammar hkind)
      · exact Quiet.tells hpart.1 _
      · exact hpart.1 kind hkind
      · exact Quiet.tells hpart.1 _
      · exact Quiet.tells hpart.1 _
  | optionsSpec hkeyword hleft hright hentries =>
      intro depth parent hlevel
      exact tells_block (by simp) hkeyword hleft hright hentries (fun hpart => hpart.1)
        fun entries hsame => .options hlevel hsame
  | @option key sign value semicolon hkey hsign hvalue hsemicolon =>
      have hcalm : ∀ type ∈ optionValueTypes, type ∉ bracketTypes := by decide
      have hkind : ∀ kind ∈ [Kind.id, .stringLiteral, .charLiteral, .integer],
          kind ∉ listingKinds := by decide
      exact .pair hkey hsign (hcalm _ hvalue) hsemicolon (by decide)
        (hkind _ (Shape.optionKind_mem value))
  | importSpec hkeyword hfirst hmore hsemicolon =>
      have hothers : ∀ own node, After .comma (Kinded ListedIn .delegate) own node →
          Quiet own node := by
        rintro _ node ⟨comma, rest, hcomma, hnode, rfl⟩
        exact ⟨List.forall_mem_cons.2 ⟨by simp [hcomma, bracketTypes], hnode.1.1⟩, hnode.1.2⟩
      refine quiet_of_children ?_ (by simp [listingKinds]) ?_
      · simp only [List.cons_append, List.forall_mem_cons, List.forall_mem_append]
        exact ⟨by simp [hkeyword, bracketTypes], ⟨hfirst.1.1, hmore.calm hothers⟩,
          by simp [hsemicolon, bracketTypes]⟩
      · refine List.forall_mem_cons.2 ⟨hfirst.1.2, fun node hnode => ?_⟩
        obtain ⟨own, -, hother⟩ := hmore.mem hnode
        exact (hothers own node hother).2
  | delegate hname =>
      exact quiet_of_leaves (by simp [hname, bracketTypes]) (by simp [listingKinds]) (by simp)
  | renamed hshort hsign hname =>
      exact quiet_of_leaves (by simp [hshort, hsign, hname, bracketTypes]) (by simp [listingKinds])
        (by simp [Bare, listingKinds])
  | tokensSpec hkeyword hleft hright hentries =>
      intro kind hkind
      exact tells_block (by simp) hkeyword hleft hright hentries (fun hpart => hpart.1)
        fun entries hsame => .tokens hkind hsame
  | imaginary hname hsemicolon => exact .single hname hsemicolon
  | tokenSpec hname hsign hliteral hsemicolon =>
      have hkind : ∀ kind ∈ [Kind.stringLiteral, .charLiteral], kind ∉ listingKinds := by decide
      exact .pair hname hsign (by simp [hliteral, bracketTypes]) hsemicolon (by decide)
        (hkind _ (Shape.literalKind_mem _))
  | grammarScope hkeyword hname haction =>
      exact quiet_of_leaves (by simp [hkeyword, hname, haction, bracketTypes])
        (by simp [listingKinds]) (by simp [Bare, listingKinds])
  | actionSpec hsign hname haction =>
      exact quiet_of_leaves (by simp [hsign, hname, haction, bracketTypes]) (by simp [listingKinds])
        (by simp [Bare, listingKinds])
  | scopedAction hsign hscope hcolons hname haction =>
      exact quiet_of_leaves (by simp [hsign, hscope, hcolons, hname, haction, bracketTypes])
        (by simp [listingKinds]) (by simp [Bare, listingKinds])
  | ruleSpec => exact listed_ruleSpec hnode
  | @ruleModifier word kind hkind =>
      have hplain : ∀ kind ∈ Rule.ruleModifier.kinds, kind ∉ listingKinds := by decide
      refine quiet_of_leaves (List.forall_mem_singleton.2 fun htype => ?_)
        (hplain _ (modifierKind?_mem hkind)) (by simp)
      simp only [bracketTypes, List.mem_cons, List.not_mem_nil, or_false] at htype
      rcases htype with htype | htype | htype | htype | htype <;>
        simp [htype, modifierKind?] at hkind
  | ruleBang hsign =>
      exact quiet_of_leaves (by simp [hsign, bracketTypes]) (by simp [listingKinds]) (by simp)
  | ruleArgs hargs =>
      exact quiet_of_leaves (by simp [hargs, bracketTypes]) (by simp [listingKinds]) (by simp)
  | returnsSpec hkeyword hargs =>
      exact quiet_of_leaves (by simp [hkeyword, hargs, bracketTypes]) (by simp [listingKinds])
        (by simp [Bare, listingKinds])
  | throwsSpec hkeyword hname hnames =>
      refine quiet_of_leaves ?_ (by simp [listingKinds]) (by simp [Bare, listingKinds])
      simp only [List.forall_mem_cons]
      exact ⟨by simp [hkeyword, bracketTypes], by simp [hname, bracketTypes],
        hnames.calm (by decide)⟩
  | ruleScope hkeyword _ hactions hnames =>
      refine quiet_of_leaves ?_ (by simp [listingKinds]) ?_
      · simp only [List.cons_append, List.forall_mem_cons, List.forall_mem_append]
        exact ⟨by simp [hkeyword, bracketTypes],
          fun action haction => by simp [hactions action haction, bracketTypes], hnames.calm⟩
      · simp only [Node.addChildren_children, Node.ofToken_children, List.nil_append,
          List.forall_mem_append, List.forall_mem_map]
        simp [Bare, listingKinds]
  | catchClause hkeyword hargs haction =>
      exact quiet_of_leaves (by simp [hkeyword, hargs, haction, bracketTypes])
        (by simp [listingKinds]) (by simp [Bare, listingKinds])
  | finallyClause hkeyword haction =>
      exact quiet_of_leaves (by simp [hkeyword, haction, bracketTypes]) (by simp [listingKinds])
        (by simp [Bare, listingKinds])
  | altList hfirst hmore =>
      intro depth parent
      refine (hfirst.1 depth parent).append (hmore.tells ?_)
      rintro _ node ⟨mark, rest, hmark, hnode, rfl⟩
      exact (hnode.1 depth parent).cons (by simp [hmark, bracketTypes])
  | @alternative _ elements helements =>
      intro depth parent
      rw [Node.listings_of_plain (by simp [listingKinds]), Assemble.alternative_kind,
        Assemble.alternative_children]
      exact helements.tells fun hpart => hpart.1 depth _
  | element hrule hpart =>
      simp only [List.mem_cons, List.not_mem_nil, or_false] at hrule
      rcases hrule with rfl | rfl
      · exact hpart.1
      · exact fun depth parent => Quiet.tells hpart.1 parent
  | subrule => exact listed_subrule hnode
  | atom hnode => exact quiet_atom hnode

theorem Source.blocks_match {text : String} {file : Option String} {source : Source}
    (h : Source.parse text file = .ok source) :
    List.Forall₂ Matches source.blocks source.listings := by
  have hroot : ∀ parent, Tells 0 source.tokens.toList (source.root.listings parent) :=
    Source.holds_root inductive_listed h
  obtain ⟨blocks, hblocks, hmatches⟩ := hroot none []
  rw [Source.listings_eq]
  simp only [List.append_nil, blocksFrom] at hblocks
  rwa [Source.blocks, hblocks]

/-! ## The tokens of an entry -/

theorem sublist_of_mem_entriesFrom {tokens : List Token} {key sign value : Token}
    (h : .pair key sign value ∈ entriesFrom tokens) :
    key.type = .identifier ∧ sign.type = .mark .assign ∧ [key, sign, value].Sublist tokens := by
  fun_induction entriesFrom tokens with
  | case1 name next hname first last more hnext ih =>
      rcases List.mem_cons.1 h with heq | hlater
      · cases heq
        exact ⟨hname, hnext, by simp⟩
      · obtain ⟨hkey, hsign, hsublist⟩ := ih hlater
        exact ⟨hkey, hsign, (((hsublist.cons _).cons _).cons _).cons _⟩
  | case2 name next hname more hnext ih =>
      rcases List.mem_cons.1 h with heq | hlater
      · cases heq
      · obtain ⟨hkey, hsign, hsublist⟩ := ih hlater
        exact ⟨hkey, hsign, (hsublist.cons _).cons _⟩
  | case3 => cases h
  | case4 => cases h
  | case5 => cases h

theorem exists_of_mem_blocksFrom {depth : Nat} {tokens : List Token} {block : EntryBlock}
    (h : block ∈ blocksFrom depth tokens) :
    ∃ rest, block.entries = entriesFrom rest ∧ rest.Sublist tokens := by
  have hlater {token : Token} {tokens : List Token}
      (h : ∃ rest, block.entries = entriesFrom rest ∧ rest.Sublist tokens) :
      ∃ rest, block.entries = entriesFrom rest ∧ rest.Sublist (token :: tokens) := by
    obtain ⟨rest, hentries, hsublist⟩ := h
    exact ⟨rest, hentries, hsublist.cons token⟩
  fun_induction blocksFrom depth tokens with
  | case1 => cases h
  | case2 depth token tokens _ ih =>
      rcases List.mem_cons.1 h with rfl | h
      · exact ⟨tokens.tail, rfl, (List.tail_sublist tokens).cons token⟩
      · exact hlater (ih h)
  | case3 depth token tokens _ ih =>
      rcases List.mem_cons.1 h with rfl | h
      · exact ⟨tokens.tail, rfl, (List.tail_sublist tokens).cons token⟩
      · exact hlater (ih h)
  | case4 _ _ _ _ ih => exact hlater (ih h)
  | case5 _ _ _ _ ih => exact hlater (ih h)
  | case6 _ _ _ _ ih => exact hlater (ih h)
  | case7 => exact hlater (by simp_all)

end GrammarLint
