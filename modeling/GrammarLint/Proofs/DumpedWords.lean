import GrammarLint.Proofs.Lexemes
import GrammarLint.Tree.Dump

/-!
# The words of a dump

Names of kinds, integers and escaped texts are read back from what a dump writes for
them, whatever follows there.
-/

namespace GrammarLint

open Grammar

/-! ## What a dump tells -/

namespace Node

mutual

/-- The node without the index of its token, and so all below it: what the dumps tell. -/
def unindexed : Node → Node
  | ⟨kind, text, line, column, _, children⟩ =>
      { kind, text, line, column, children := unindexedAll children }

def unindexedAll : List Node → List Node
  | [] => []
  | node :: nodes => node.unindexed :: unindexedAll nodes

end

def lone (node : Node) : Node :=
  { node with tokenIndex := -1, children := [] }

theorem unindexedAll_eq_map (nodes : List Node) : unindexedAll nodes = nodes.map unindexed := by
  induction nodes with
  | nil => rfl
  | cons node nodes ih => rw [unindexedAll, ih, List.map_cons]

theorem unindexed_eq (node : Node) :
    node.unindexed = { node.lone with children := node.children.map unindexed } := by
  cases node
  rw [unindexed, unindexedAll_eq_map]
  rfl

end Node

/-! ## Kinds -/

def Kind.decode? (chars : List Char) : Option (Kind × List Char) := do
  let kind ← all.find? (·.name == String.ofList (chars.takeWhile (· != ' ')))
  some (kind, (chars.dropWhile (· != ' ')).tail)

@[simp] theorem Kind.decode?_suffix (kind : Kind) (rest : List Char) :
    decode? (kind.name.toList ++ ' ' :: rest) = some (kind, rest) := by
  have hblank : ' ' ∉ kind.name.toList := notMem_name (by decide) kind
  have hname : ∀ c ∈ kind.name.toList, (c != ' ') = true := by
    intro c hc
    rw [bne_iff_ne]
    rintro rfl
    exact hblank hc
  have hwhile := @takeWhile_append _ _ (' ' :: rest) hname (by simp)
  simp [decode?, hwhile.1, hwhile.2, find?_name]

/-! ## Integers -/

def decodeNat (chars : List Char) : Nat × List Char :=
  (Nat.ofDigitChars 10 (chars.takeWhile Char.isDigit) 0, chars.dropWhile Char.isDigit)

def decodeInt (chars : List Char) : Int × List Char :=
  if chars.head? = some '-' then
    let (n, rest) := decodeNat chars.tail
    (-n, rest)
  else
    let (n, rest) := decodeNat chars
    (n, rest)

theorem decodeNat_suffix (n : Nat) {rest : List Char} (h : Stops Char.isDigit rest) :
    decodeNat (Nat.toDigits 10 n ++ rest) = (n, rest) := by
  have hdigits : ∀ c ∈ Nat.toDigits 10 n, c.isDigit = true := fun c hc =>
    Nat.isDigit_of_mem_toDigits (by decide) (by decide) hc
  have hwhile := takeWhile_append hdigits h
  rw [decodeNat, hwhile.1, hwhile.2, Nat.ofDigitChars_ten_toDigits]

theorem notMem_toDigits {c : Char} (h : c.isDigit = false) (n : Nat) :
    c ∉ Nat.toDigits 10 n := by
  intro hmember
  have hdigit := Nat.isDigit_of_mem_toDigits (by decide) (by decide) hmember
  exact Bool.false_ne_true (h.symm.trans hdigit)

theorem Node.encodeInt_ofNat (n : Nat) : encodeInt (.ofNat n) = Nat.toDigits 10 n := by
  simp [encodeInt, Int.repr]

theorem Node.encodeInt_negSucc (n : Nat) :
    encodeInt (.negSucc n) = '-' :: Nat.toDigits 10 (n + 1) := by
  simp [encodeInt, Int.repr]

theorem decodeInt_suffix (n : Int) {rest : List Char} (h : Stops Char.isDigit rest) :
    decodeInt (Node.encodeInt n ++ rest) = (n, rest) := by
  cases n with
  | ofNat n =>
      have hhead : (Nat.toDigits 10 n ++ rest).head? ≠ some '-' := by
        have hnone : '-' ∉ Nat.toDigits 10 n := notMem_toDigits (by decide) n
        rw [List.head?_append, List.head?_eq_some_head Nat.toDigits_ne_nil]
        intro hminus
        apply hnone
        exact Option.some.inj hminus ▸ List.head_mem _
      rw [Node.encodeInt_ofNat, decodeInt, if_neg hhead, decodeNat_suffix n h]
      rfl
  | negSucc n =>
      rw [Node.encodeInt_negSucc, List.cons_append, decodeInt, List.head?_cons, if_pos rfl,
        List.tail_cons, decodeNat_suffix (n + 1) h]
      rfl

theorem newline_notMem_encodeInt (n : Int) : '\n' ∉ Node.encodeInt n := by
  cases n with
  | ofNat n =>
      rw [Node.encodeInt_ofNat]
      exact notMem_toDigits (by decide) n
  | negSucc n =>
      have hdigits : '\n' ∉ Nat.toDigits 10 (n + 1) := notMem_toDigits (by decide) _
      simp [Node.encodeInt_negSucc, hdigits]

/-! ## Escaped texts -/

/-- The characters up to the quote, each read by `decode?`, and what follows the quote. -/
def decodeUntil? (quote : Char) (decode? : List Char → Option (Char × List Char)) :
    (fuel : Nat) → List Char → Option (List Char × List Char)
  | 0, _ => none
  | fuel + 1, chars =>
      if chars.head? = some quote then some ([], chars.tail)
      else do
        let (c, chars) ← decode? chars
        let (text, rest) ← decodeUntil? quote decode? fuel chars
        some (c :: text, rest)

/-- Every character is read back from its code, which does not begin with the quote. -/
structure ReadsBack (quote : Char) (encode : Char → List Char)
    (decode? : List Char → Option (Char × List Char)) : Prop where
  front : ∀ c rest, (encode c ++ rest).head? ≠ some quote
  suffix : ∀ c rest, decode? (encode c ++ rest) = some (c, rest)

section ReadBack

variable {quote : Char} {encode : Char → List Char}
  {decode? : List Char → Option (Char × List Char)}

theorem ReadsBack.decodeUntil?_fuel (h : ReadsBack quote encode decode?) {fuel : Nat}
    (text rest : List Char) (hfuel : text.length < fuel) :
    decodeUntil? quote decode? fuel (text.flatMap encode ++ quote :: rest) =
      some (text, rest) := by
  induction text generalizing fuel with
  | nil =>
      cases fuel with
      | zero => simp at hfuel
      | succ fuel => simp [decodeUntil?]
  | cons c text ih =>
      cases fuel with
      | zero => simp at hfuel
      | succ fuel =>
          rw [List.flatMap_cons, List.append_assoc, decodeUntil?, if_neg (h.front c _),
            h.suffix]
          simp [ih (Nat.lt_of_succ_lt_succ hfuel)]

theorem ReadsBack.length_le (h : ReadsBack quote encode decode?) (text : List Char) :
    text.length ≤ (text.flatMap encode).length := by
  induction text with
  | nil => simp
  | cons c text ih =>
      have hcode : encode c ≠ [] := by
        intro hnil
        have hfront := h.front c [quote]
        rw [hnil] at hfront
        exact hfront rfl
      have hlength := List.length_pos_iff.2 hcode
      rw [List.flatMap_cons, List.length_append, List.length_cons]
      omega

theorem ReadsBack.decodeUntil?_suffix (h : ReadsBack quote encode decode?)
    (text rest : List Char) :
    decodeUntil? quote decode? (text.flatMap encode ++ quote :: rest).length
      (text.flatMap encode ++ quote :: rest) = some (text, rest) := by
  apply h.decodeUntil?_fuel
  have hlength := h.length_le text
  rw [List.length_append, List.length_cons]
  omega

end ReadBack

def unescaped (c : Char) : Char :=
  if c = 'b' then '\x08'
  else if c = 'f' then '\x0c'
  else if c = 'n' then '\n'
  else if c = 'r' then '\r'
  else if c = 't' then '\t'
  else c

end GrammarLint
