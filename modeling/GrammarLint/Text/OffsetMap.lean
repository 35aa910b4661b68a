/-!
# Maps keyed by offsets

A binary trie.  The root holds the value of the key zero; the keys `2 k + 1` and
`2 k + 2` are the keys `k` of the two subtrees.
-/

namespace GrammarLint.Text

inductive OffsetMap (α : Type) where
  | empty
  | node (here : Option α) (odd even : OffsetMap α)

namespace OffsetMap

variable {α : Type}

def get? : OffsetMap α → Nat → Option α
  | .empty, _ => none
  | .node here odd even, key =>
      if key = 0 then here
      else if key % 2 = 1 then odd.get? ((key - 1) / 2)
      else even.get? ((key - 1) / 2)

def root? : OffsetMap α → Option α
  | .empty => none
  | .node here _ _ => here

def odds : OffsetMap α → OffsetMap α
  | .empty => .empty
  | .node _ odd _ => odd

def evens : OffsetMap α → OffsetMap α
  | .empty => .empty
  | .node _ _ even => even

/-- Sets the value of a key that is smaller than `fuel`. -/
def insertWithin (value : α) : (fuel key : Nat) → OffsetMap α → OffsetMap α
  | 0, _, map => map
  | fuel + 1, key, map =>
      if key = 0 then .node (some value) map.odds map.evens
      else if key % 2 = 1 then
        .node map.root? (insertWithin value fuel ((key - 1) / 2) map.odds) map.evens
      else .node map.root? map.odds (insertWithin value fuel ((key - 1) / 2) map.evens)

def insert (map : OffsetMap α) (key : Nat) (value : α) : OffsetMap α :=
  insertWithin value (key + 1) key map

@[simp]
theorem get?_empty (key : Nat) : (empty : OffsetMap α).get? key = none := rfl

theorem get?_eq (map : OffsetMap α) (key : Nat) :
    map.get? key =
      if key = 0 then map.root?
      else if key % 2 = 1 then map.odds.get? ((key - 1) / 2)
      else map.evens.get? ((key - 1) / 2) := by
  cases map with
  | empty => simp [root?, odds, evens]
  | node here odd even => simp [get?, root?, odds, evens]

theorem get?_insertWithin (value : α) (fuel key other : Nat) (map : OffsetMap α)
    (small : key < fuel) :
    (insertWithin value fuel key map).get? other =
      if other = key then some value else map.get? other := by
  induction fuel generalizing key other map with
  | zero => omega
  | succ fuel ih =>
      have below (side : OffsetMap α) (nonzero : key ≠ 0) :=
        ih ((key - 1) / 2) ((other - 1) / 2) side (by omega)
      have halves (parity : other % 2 = key % 2) (positive : other ≠ 0) (nonzero : key ≠ 0) :
          ((other - 1) / 2 = (key - 1) / 2) = (other = key) := by
        apply propext
        omega
      rw [get?_eq map]
      grind [insertWithin, get?]

theorem get?_insert (map : OffsetMap α) (key other : Nat) (value : α) :
    (map.insert key value).get? other = if other = key then some value else map.get? other :=
  get?_insertWithin value (key + 1) key other map (Nat.lt_succ_self key)

end OffsetMap

end GrammarLint.Text
