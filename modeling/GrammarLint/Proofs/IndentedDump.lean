import GrammarLint.Proofs.QuotedText
import GrammarLint.Proofs.Sites

/-!
# Indented trees read back

The indented form of a tree has one line for every node, in preorder, two blanks deeper than
that of the parent.  The depths of the lines give back the shape of the tree, and each line
its node, so that two trees have the same indented form exactly if they tell the same.
-/

namespace GrammarLint.Node

open Grammar Text

/-! ## Lines -/

def written (node : Node) : List Char :=
  node.kind.name.toList ++ ' ' :: encodeQuoted node.text.toList ++
    ' ' :: '@' :: encodeInt node.line ++ ':' :: encodeInt node.column

theorem toList_indentedLine (level : Int) (node : Node) :
    (indentedLine level node).toList = (padding level).toList ++ node.written := by
  have hstring (text : String) : toString text = text := rfl
  simp [indentedLine, written, quoted, encodeInt, hstring]

theorem toList_padding (level : Nat) :
    (padding level).toList = List.replicate (2 * level) ' ' := by
  simp [padding, indentWidth]

theorem toList_indentedLine_zero (node : Node) : (indentedLine 0 node).toList = node.written :=
  toList_indentedLine 0 node

def siteLine (level : Nat) (site : Site) : List Char :=
  List.replicate (2 * (level + site.above.length)) ' ' ++ site.node.written

mutual

theorem indentedLines_eq (level : Nat) : (node : Node) → (above : List (Node × Nat)) →
    (indentedLines ((level + above.length : Nat) : Int) node).map String.toList =
      (node.sites above).map (siteLine level)
  | ⟨kind, text, line, column, index, children⟩, above => by
      rw [indentedLines, sites, List.map_cons, List.map_cons, toList_indentedLine,
        toList_padding]
      exact congrArg _ (indentedLinesOf_eq level children above _ 0)

theorem indentedLinesOf_eq (level : Nat) : (nodes : List Node) →
    (above : List (Node × Nat)) → (parent : Node) → (index : Nat) →
      (indentedLinesOf ((level + above.length : Nat) + 1 : Int) nodes).map String.toList =
        (sitesFrom above parent index nodes).map (siteLine level)
  | [], _, _, _ => rfl
  | node :: nodes, above, parent, index => by
      have hfirst := indentedLines_eq level node ((parent, index) :: above)
      have hrest := indentedLinesOf_eq level nodes above parent (index + 1)
      rw [indentedLinesOf, sitesFrom, List.map_append, List.map_append, hrest, ← hfirst]
      rfl

end

theorem newline_notMem_siteLine (level : Nat) (site : Site) : '\n' ∉ siteLine level site := by
  have hname : '\n' ∉ site.node.kind.name.toList := Kind.notMem_name (by decide) _
  simp [siteLine, written, newline_notMem_encodeQuoted, newline_notMem_encodeInt, hname]

theorem splitOn_indented (level : Nat) (node : Node) :
    (node.indented level).toList.splitOn '\n' = (node.sites []).map (siteLine level) := by
  have hlines : (indentedLines level node).map String.toList =
      (node.sites []).map (siteLine level) := indentedLines_eq level node []
  have hbreak : ∀ line ∈ (node.sites []).map (siteLine level), '\n' ∉ line := by
    simp [newline_notMem_siteLine]
  rw [indented, String.toList_intercalate, hlines]
  apply List.splitOn_intercalate '\n' hbreak
  cases node
  simp [sites]

/-! ## Reading -/

def decodeLine? (chars : List Char) : Option (Nat × Node) := do
  let blanks := chars.takeWhile (· == ' ')
  let (kind, chars) ← Kind.decode? (chars.dropWhile (· == ' '))
  let (text, chars) ← decodeQuoted? chars
  let ' ' :: '@' :: chars := chars | none
  let (line, chars) := decodeInt chars
  let ':' :: chars := chars | none
  let (column, []) := decodeInt chars | none
  some (blanks.length / indentWidth, { kind, text := String.ofList text, line, column })

/-- Puts a node in front of others with their depths: those that follow one level deeper
become its children. -/
def adopt (entry : Nat × Node) (others : List (Nat × Node)) : List (Nat × Node) :=
  let below := others.takeWhile (·.1 == entry.1 + 1)
  let rest := others.dropWhile (·.1 == entry.1 + 1)
  (entry.1, { entry.2 with children := below.map Prod.snd }) :: rest

def decodeIndented? (text : String) : Option Node := do
  let entries ← (text.toList.splitOn '\n').mapM decodeLine?
  let [(_, node)] := entries.foldr adopt [] | none
  some node

def siteEntry (level : Nat) (site : Site) : Nat × Node :=
  (level + site.above.length, site.node.lone)

theorem stops_written (node : Node) : Stops (· == ' ') node.written := by
  have hblank : ' ' ∉ node.kind.name.toList := Kind.notMem_name (by decide) _
  have hsome : node.kind.name.toList ≠ [] := by
    rw [ne_eq, String.toList_eq_nil_iff]
    exact node.kind.name_ne_empty
  rw [written]
  cases hname : node.kind.name.toList with
  | nil => exact absurd hname hsome
  | cons first name =>
      rw [hname, List.mem_cons, not_or] at hblank
      simp [Stops, Ne.symm hblank.1]

theorem decodeLine?_siteLine (level : Nat) (site : Site) :
    decodeLine? (siteLine level site) = some (siteEntry level site) := by
  have hblanks : ∀ c ∈ List.replicate (2 * (level + site.above.length)) ' ',
      (c == ' ') = true := by
    simp
  have hwritten := site.node.stops_written
  have hwhile := takeWhile_append hblanks hwritten
  have hline : Stops Char.isDigit (':' :: encodeInt site.node.column) := by
    simp [Stops]
  have hcolumn : decodeInt (encodeInt site.node.column) = (site.node.column, []) := by
    simpa using @decodeInt_suffix site.node.column [] (by simp [Stops])
  simp only [decodeLine?, siteLine, hwhile.1, hwhile.2]
  simp [written, decodeInt_suffix _ hline, hcolumn, siteEntry, lone, indentWidth]

def Surfaces (depth : Nat) (others : List (Nat × Node)) : Prop :=
  ∀ entry ∈ others.head?, entry.1 ≤ depth

theorem adopt_children {depth : Nat} {node : Node} {children others : List (Nat × Node)}
    (hchildren : ∀ entry ∈ children, entry.1 = depth + 1) (hothers : Surfaces depth others) :
    adopt (depth, node) (children ++ others) =
      (depth, { node with children := children.map Prod.snd }) :: others := by
  have hall : ∀ entry ∈ children, (entry.1 == depth + 1) = true := by
    simpa using hchildren
  have hnone : others.takeWhile (·.1 == depth + 1) = [] ∧
      others.dropWhile (·.1 == depth + 1) = others := by
    cases others with
    | nil => exact ⟨rfl, rfl⟩
    | cons entry others =>
        have hentry : entry.1 ≤ depth := hothers entry rfl
        have hother : entry.1 ≠ depth + 1 := by omega
        simp [hother]
  simp [adopt, List.takeWhile_append_of_pos hall, List.dropWhile_append_of_pos hall, hnone.1,
    hnone.2]

mutual

theorem foldr_adopt_sites (level : Nat) : (node : Node) → (above : List (Node × Nat)) →
    (others : List (Nat × Node)) → Surfaces (level + above.length) others →
      ((node.sites above).map (siteEntry level)).foldr adopt others =
        (level + above.length, node.unindexed) :: others
  | ⟨kind, text, line, column, index, children⟩, above, others, hothers => by
      have hdeeper : Surfaces (level + above.length + 1) others := fun entry hentry =>
        Nat.le_succ_of_le (hothers entry hentry)
      rw [sites, List.map_cons, List.foldr_cons,
        foldr_adopt_sitesFrom level children above _ 0 others hdeeper, siteEntry,
        adopt_children (by simp) hothers, unindexed_eq]
      simp [lone]

theorem foldr_adopt_sitesFrom (level : Nat) : (nodes : List Node) →
    (above : List (Node × Nat)) → (parent : Node) → (index : Nat) →
    (others : List (Nat × Node)) → Surfaces (level + above.length + 1) others →
      ((sitesFrom above parent index nodes).map (siteEntry level)).foldr adopt others =
        nodes.map (fun node => (level + above.length + 1, node.unindexed)) ++ others
  | [], _, _, _, _, _ => rfl
  | node :: nodes, above, parent, index, others, hothers => by
      have hrest : Surfaces (level + above.length + 1)
          (nodes.map (fun node => (level + above.length + 1, node.unindexed)) ++ others) := by
        cases nodes with
        | nil => exact hothers
        | cons next nodes => simp [Surfaces]
      rw [sitesFrom, List.map_append, List.foldr_append,
        foldr_adopt_sitesFrom level nodes above parent (index + 1) others hothers,
        foldr_adopt_sites level node ((parent, index) :: above) _ hrest]
      rfl

end

theorem mapM_decodeLine? (level : Nat) (sites : List Site) :
    (sites.map (siteLine level)).mapM decodeLine? = some (sites.map (siteEntry level)) := by
  induction sites with
  | nil => rfl
  | cons site sites ih => simp [decodeLine?_siteLine, ih]

theorem decodeIndented?_indented (level : Nat) (node : Node) :
    decodeIndented? (node.indented level) = some node.unindexed := by
  have hadopt := foldr_adopt_sites level node [] [] (by simp [Surfaces])
  rw [decodeIndented?, splitOn_indented, mapM_decodeLine?]
  simp [hadopt]

/-! ## The same indented form -/

mutual

theorem indentedLines_unindexed : (node : Node) → (level : Int) →
    indentedLines level node.unindexed = indentedLines level node
  | ⟨_, _, _, _, _, children⟩, level => by
      rw [unindexed, indentedLines, indentedLines, indentedLinesOf_unindexedAll children]
      rfl

theorem indentedLinesOf_unindexedAll : (nodes : List Node) → (level : Int) →
    indentedLinesOf level (unindexedAll nodes) = indentedLinesOf level nodes
  | [], _ => rfl
  | node :: nodes, level => by
      rw [unindexedAll, indentedLinesOf, indentedLinesOf, indentedLines_unindexed node,
        indentedLinesOf_unindexedAll nodes]

end

/-! ## The number of lines -/

mutual

theorem length_sites : (node : Node) → (above : List (Node × Nat)) →
    (node.sites above).length = node.size
  | ⟨_, _, _, _, _, children⟩, above => by
      rw [sites, List.length_cons, length_sitesFrom children, size, Nat.add_comm]

theorem length_sitesFrom : (nodes : List Node) → (above : List (Node × Nat)) →
    (parent : Node) → (index : Nat) → (sitesFrom above parent index nodes).length = sizes nodes
  | [], _, _, _ => rfl
  | node :: nodes, above, parent, index => by
      rw [sitesFrom, List.length_append, length_sites node, length_sitesFrom nodes, sizes]

end

/-- The indented form of a tree splits into as many lines as the tree has nodes.  They are the
lines of the nodes in preorder, each after two blanks for every level of its depth.  It is read
back at any level, so that trees with one indented form differ in no more than indices. -/
theorem indented_decodable (level : Nat) :
    (∀ node : Node,
      (node.indented level).toList.splitOn '\n' = (node.sites []).map (fun site =>
        List.replicate (2 * (level + site.above.length)) ' ' ++
          (indentedLine 0 site.node).toList) ∧
      (node.sites []).map Site.node = node.preorder ∧
      ((node.indented level).toList.splitOn '\n').length = node.size ∧
      decodeIndented? (node.indented level) = some node.unindexed) ∧
    ∀ node other : Node,
      node.indented level = other.indented level ↔ node.unindexed = other.unindexed := by
  refine ⟨fun node => ⟨?_, map_node_sites node [], ?_, ?_⟩, fun node other => ⟨?_, ?_⟩⟩
  · simp only [toList_indentedLine_zero]
    exact splitOn_indented level node
  · rw [splitOn_indented, List.length_map, length_sites]
  · exact decodeIndented?_indented level node
  · intro hsame
    have hread := congrArg decodeIndented? hsame
    rw [decodeIndented?_indented, decodeIndented?_indented] at hread
    exact Option.some.inj hread
  · intro hsame
    rw [indented, ← indentedLines_unindexed node, hsame, indentedLines_unindexed, indented]

end GrammarLint.Node
