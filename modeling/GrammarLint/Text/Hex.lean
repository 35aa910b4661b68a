/-!
# Hexadecimal digits of a fixed width

Escapes write a code with exactly two, four or eight lower-case digits, and
the reader of an escape takes exactly as many back.
-/

namespace GrammarLint.Text

def hexDigit (n : Nat) : Char :=
  if n < 10 then Char.ofNat (48 + n) else Char.ofNat (87 + n)

def encodeHex : (width : Nat) → (n : Nat) → List Char
  | 0, _ => []
  | width + 1, n => encodeHex width (n / 16) ++ [hexDigit (n % 16)]

@[simp]
theorem length_encodeHex (width n : Nat) : (encodeHex width n).length = width := by
  induction width generalizing n with
  | zero => rfl
  | succ width ih => simp [encodeHex, ih]

def hexValue? (c : Char) : Option Nat :=
  if '0' ≤ c ∧ c ≤ '9' then some (c.toNat - 48)
  else if 'a' ≤ c ∧ c ≤ 'f' then some (c.toNat - 87)
  else if 'A' ≤ c ∧ c ≤ 'F' then some (c.toNat - 55)
  else none

def decodeHex? (high : Nat) : (digits : List Char) → Option Nat
  | [] => some high
  | c :: digits =>
      match hexValue? c with
      | some low => decodeHex? (high * 16 + low) digits
      | none => none

end GrammarLint.Text
