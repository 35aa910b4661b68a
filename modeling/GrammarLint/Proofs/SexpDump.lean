import GrammarLint.Proofs.DumpedWords

/-!
# S-expressions read back

An S-expression gives back the tree it was written for, whatever the texts of the nodes
hold.  So two trees have the same S-expression exactly if they tell the same.
-/

namespace GrammarLint.Node

open Grammar

/-! ## Heads -/

def decodeSexpChar? : List Char → Option (Char × List Char)
  | [] => none
  | c :: rest =>
      if c = '\\' then
        match rest with
        | [] => none
        | code :: rest => some (unescaped code, rest)
      else some (c, rest)

theorem readsBack_sexp : ReadsBack '"' encodeSexpChar decodeSexpChar? where
  front c rest := by
    unfold encodeSexpChar
    grind
  suffix c rest := by
    unfold encodeSexpChar decodeSexpChar?
    grind [unescaped]

def decodeSexpText? : List Char → Option (List Char × List Char)
  | '"' :: chars => decodeUntil? '"' decodeSexpChar? chars.length chars
  | _ => none

@[simp] theorem decodeSexpText?_suffix (text rest : List Char) :
    decodeSexpText? (encodeSexpText text ++ rest) = some (text, rest) := by
  have hread := readsBack_sexp.decodeUntil?_suffix text rest
  simpa [encodeSexpText, decodeSexpText?] using hread

def decodeSexpHead? (chars : List Char) : Option (Node × List Char) := do
  let (kind, chars) ← Kind.decode? chars
  let (text, chars) ← decodeSexpText? chars
  let (line, chars) := decodeInt chars.tail
  let (column, chars) := decodeInt chars.tail
  some ({ kind, text := String.ofList text, line, column }, chars)

theorem decodeSexpHead?_suffix (node : Node) {rest : List Char} (h : Stops Char.isDigit rest) :
    decodeSexpHead? (node.encodeSexpHead ++ rest) = some (node.lone, rest) := by
  have hblank : Stops Char.isDigit (' ' :: (encodeInt node.column ++ rest)) := by
    simp [Stops]
  simp [encodeSexpHead, decodeSexpHead?, decodeInt_suffix _ hblank, decodeInt_suffix _ h, lone]

/-! ## Trees -/

def decodeSexps? : (fuel : Nat) → List Char → Option (List Node × List Char)
  | fuel + 1, ' ' :: '(' :: chars => do
      let (node, chars) ← decodeSexpHead? chars
      let (children, chars) ← decodeSexps? fuel chars
      let ')' :: chars := chars | none
      let (nodes, rest) ← decodeSexps? fuel chars
      some ({ node with children } :: nodes, rest)
  | _, chars => some ([], chars)

def decodeSexp? (text : String) : Option Node := do
  let chars := ' ' :: text.toList
  let ([node], []) ← decodeSexps? chars.length chars | none
  some node

def EndsNodes (rest : List Char) : Prop :=
  rest = [] ∨ ∃ more, rest = ')' :: more

theorem EndsNodes.decodeSexps? {rest : List Char} (h : EndsNodes rest) (fuel : Nat) :
    decodeSexps? fuel rest = some ([], rest) := by
  rcases h with rfl | ⟨more, rfl⟩ <;> cases fuel <;> rfl

theorem stops_encodeSexps (nodes : List Node) {rest : List Char} (h : EndsNodes rest) :
    Stops Char.isDigit (encodeSexps nodes ++ rest) := by
  cases nodes with
  | nil => rcases h with rfl | ⟨more, rfl⟩ <;> simp [encodeSexps, Stops]
  | cons node nodes => simp [encodeSexps, Stops]

/-- Nodes are read back, whatever follows their end.  Every level of the tree and every
sibling takes one unit of the fuel. -/
theorem decodeSexps?_suffix {fuel : Nat} {nodes : List Node} {rest : List Char}
    (hfuel : sizes nodes ≤ fuel) (hrest : EndsNodes rest) :
    decodeSexps? fuel (encodeSexps nodes ++ rest) = some (nodes.map unindexed, rest) := by
  induction fuel generalizing nodes rest with
  | zero =>
      cases nodes with
      | nil => exact hrest.decodeSexps? 0
      | cons node nodes =>
          cases node
          simp [sizes, size] at hfuel
  | succ fuel ih =>
      cases nodes with
      | nil => exact hrest.decodeSexps? _
      | cons node nodes =>
          obtain ⟨kind, text, line, column, index, children⟩ := node
          simp only [sizes, size] at hfuel
          have hclose : EndsNodes (')' :: (encodeSexps nodes ++ rest)) := .inr ⟨_, rfl⟩
          have hhead := decodeSexpHead?_suffix ⟨kind, text, line, column, index, children⟩
            (stops_encodeSexps children hclose)
          have hchildren := @ih children _ (by omega) hclose
          have hnodes := @ih nodes rest (by omega) hrest
          simp [encodeSexps, encodeSexp, decodeSexps?, hhead, hchildren, hnodes, unindexed_eq,
            lone]

mutual

theorem size_le_encodeSexp : (node : Node) → node.size ≤ (encodeSexp node).length
  | ⟨_, _, _, _, _, children⟩ => by
      have := sizes_le_encodeSexps children
      simp only [size, encodeSexp, List.length_cons, List.length_append]
      omega

theorem sizes_le_encodeSexps : (nodes : List Node) → sizes nodes ≤ (encodeSexps nodes).length
  | [] => Nat.le_refl 0
  | node :: nodes => by
      have := size_le_encodeSexp node
      have := sizes_le_encodeSexps nodes
      simp only [sizes, encodeSexps, List.length_cons, List.length_append]
      omega

end

theorem decodeSexp?_sexp (node : Node) : decodeSexp? node.sexp = some node.unindexed := by
  have htext : ' ' :: node.sexp.toList = encodeSexps [node] := by
    simp [sexp, encodeSexps]
  have hread := decodeSexps?_suffix (sizes_le_encodeSexps [node]) (.inl rfl)
  rw [List.append_nil] at hread
  simp [decodeSexp?, htext, hread]

/-! ## The same S-expression -/

mutual

theorem encodeSexp_unindexed : (node : Node) → encodeSexp node.unindexed = encodeSexp node
  | ⟨_, _, _, _, _, children⟩ => by
      simp only [unindexed, encodeSexp, encodeSexpHead]
      rw [encodeSexps_unindexedAll children]

theorem encodeSexps_unindexedAll : (nodes : List Node) →
    encodeSexps (unindexedAll nodes) = encodeSexps nodes
  | [] => rfl
  | node :: nodes => by
      simp only [unindexedAll, encodeSexps]
      rw [encodeSexp_unindexed node, encodeSexps_unindexedAll nodes]

end

/-- The S-expression of a tree is read back, and tells its shape and the kind, the text, the
line and the column of every node: the trees with one S-expression differ in nothing else. -/
theorem sexp_decodable :
    (∀ node : Node, decodeSexp? node.sexp = some node.unindexed) ∧
      ∀ node other : Node, node.sexp = other.sexp ↔ node.unindexed = other.unindexed := by
  refine ⟨decodeSexp?_sexp, fun node other => ⟨fun hsame => ?_, fun hsame => ?_⟩⟩
  · have hread := congrArg decodeSexp? hsame
    rw [decodeSexp?_sexp, decodeSexp?_sexp] at hread
    exact Option.some.inj hread
  · rw [sexp, ← encodeSexp_unindexed node, hsame, encodeSexp_unindexed, sexp]

example : decodeSexp? "(ID \"a\\\\\\\")\\n (\" 1 -2 (ACTION \"\" 0 5))" =
    some ⟨.id, "a\\\")\n (", 1, -2, -1, [⟨.action, "", 0, 5, -1, []⟩]⟩ := by
  decide +kernel

end GrammarLint.Node
