import GrammarLint.Proofs.DumpedWords
import Mathlib.Algebra.Ring.Nat

/-!
# Quoted texts read back

The text between the quotes is read back whatever it holds and whatever follows, though the
quote depends on the text; and what is written for it is one line.
-/

namespace GrammarLint.Text

/-! ## Hexadecimal digits -/

theorem hexValue?_hexDigit : ∀ digit < 16, hexValue? (hexDigit digit) = some digit := by
  decide

theorem hexDigit_ne_newline : ∀ digit < 16, hexDigit digit ≠ '\n' := by
  decide

theorem decodeHex?_append (high : Nat) (digits more : List Char) :
    decodeHex? high (digits ++ more) =
      (decodeHex? high digits).bind (decodeHex? · more) := by
  induction digits generalizing high with
  | nil => rfl
  | cons c digits ih =>
      rw [List.cons_append, decodeHex?, decodeHex?]
      cases hexValue? c with
      | none => rfl
      | some low => exact ih _

theorem decodeHex?_encodeHex (width n : Nat) :
    decodeHex? 0 (encodeHex width n) = some (n % 16 ^ width) := by
  induction width generalizing n with
  | zero => simp [encodeHex, decodeHex?, Nat.mod_one]
  | succ width ih =>
      have hlast : hexValue? (hexDigit (n % 16)) = some (n % 16) :=
        hexValue?_hexDigit _ (Nat.mod_lt _ (by decide))
      have hmod : n / 16 % 16 ^ width * 16 + n % 16 = n % 16 ^ (width + 1) := by
        rw [Nat.pow_succ, Nat.mul_comm (16 ^ width), Nat.mod_mul]
        omega
      rw [encodeHex, decodeHex?_append, ih]
      simp [decodeHex?, hlast, hmod]

theorem newline_notMem_encodeHex (width n : Nat) : '\n' ∉ encodeHex width n := by
  induction width generalizing n with
  | zero => simp [encodeHex]
  | succ width ih =>
      have hlast := hexDigit_ne_newline (n % 16) (Nat.mod_lt _ (by decide))
      simp [encodeHex, ih, hlast.symm]

/-! ## Characters -/

def codeWidth? (c : Char) : Option Nat :=
  if c = 'x' then some 2
  else if c = 'u' then some 4
  else if c = 'U' then some 8
  else none

def decodeQuotedChar? : List Char → Option (Char × List Char)
  | [] => none
  | c :: rest =>
      if c = '\\' then
        match rest with
        | [] => none
        | mark :: rest =>
            match codeWidth? mark with
            | some width => do
                let code ← decodeHex? 0 (rest.take width)
                some (Char.ofNat code, rest.drop width)
            | none => some (unescaped mark, rest)
      else some (c, rest)

theorem decodeQuotedChar?_escape {mark : Char} (hmark : codeWidth? mark = none)
    (rest : List Char) :
    decodeQuotedChar? ('\\' :: mark :: rest) = some (unescaped mark, rest) := by
  simp [decodeQuotedChar?, hmark]

theorem decodeQuotedChar?_hex {mark c : Char} {width : Nat} (hmark : codeWidth? mark = some width)
    (hcode : c.toNat < 16 ^ width) (rest : List Char) :
    decodeQuotedChar? ('\\' :: mark :: (encodeHex width c.toNat ++ rest)) = some (c, rest) := by
  have htake : (encodeHex width c.toNat ++ rest).take width = encodeHex width c.toNat := by
    rw [List.take_append_of_le_length (by simp), List.take_of_length_le (by simp)]
  have hdrop : (encodeHex width c.toNat ++ rest).drop width = rest := by
    rw [List.drop_append_of_le_length (by simp), List.drop_of_length_le (by simp)]
    rfl
  have hread : decodeHex? 0 (encodeHex width c.toNat) = some c.toNat := by
    rw [decodeHex?_encodeHex, Nat.mod_eq_of_lt hcode]
  simp [decodeQuotedChar?, hmark, htake, hdrop, hread]

theorem decodeQuotedChar?_code (c : Char) (rest : List Char) :
    decodeQuotedChar? (encodeCode c.toNat ++ rest) = some (c, rest) := by
  have hvalid : c.toNat < 0xD800 ∨ 0xDFFF < c.toNat ∧ c.toNat < 0x110000 := c.valid
  unfold encodeCode
  split
  · next hcode => exact decodeQuotedChar?_hex rfl hcode rest
  split
  · next hcode => exact decodeQuotedChar?_hex rfl hcode rest
  · exact decodeQuotedChar?_hex rfl (by omega) rest

theorem readsBack_quoted {quote : Char} (hquote : quote = '\'' ∨ quote = '"') :
    ReadsBack quote (encodeQuotedChar quote) decodeQuotedChar? where
  front c rest := by
    have hslash : '\\' ≠ quote := by
      rcases hquote with rfl | rfl <;> decide
    unfold encodeQuotedChar encodeCode
    grind
  suffix c rest := by
    unfold encodeQuotedChar
    split
    · next hescaped =>
        have hself : codeWidth? c = none ∧ unescaped c = c := by
          rcases hescaped with rfl | rfl
          · rcases hquote with rfl | rfl <;> decide
          · decide
        exact (decodeQuotedChar?_escape hself.1 rest).trans (by rw [hself.2])
    rename_i hplain
    split
    · next hbreak => rw [hbreak]; exact decodeQuotedChar?_escape rfl rest
    split
    · next hreturn => rw [hreturn]; exact decodeQuotedChar?_escape rfl rest
    split
    · next htab => rw [htab]; exact decodeQuotedChar?_escape rfl rest
    split
    · rw [not_or] at hplain
      simp [decodeQuotedChar?, hplain.2]
    · exact decodeQuotedChar?_code c rest

/-! ## Texts -/

def decodeQuoted? : List Char → Option (List Char × List Char)
  | [] => none
  | quote :: chars => decodeUntil? quote decodeQuotedChar? chars.length chars

theorem quoteFor_cases (text : List Char) : quoteFor text = '\'' ∨ quoteFor text = '"' := by
  unfold quoteFor
  split
  · exact .inr rfl
  · exact .inl rfl

@[simp] theorem decodeQuoted?_suffix (text rest : List Char) :
    decodeQuoted? (encodeQuoted text ++ rest) = some (text, rest) := by
  have hread := (readsBack_quoted (quoteFor_cases text)).decodeUntil?_suffix text rest
  simpa [encodeQuoted, decodeQuoted?] using hread

theorem newline_notMem_encodeQuotedChar {quote : Char} (hquote : quote ≠ '\n') (c : Char) :
    '\n' ∉ encodeQuotedChar quote c := by
  have hhex := newline_notMem_encodeHex
  have hprintable := isPrintable_newline
  unfold encodeQuotedChar encodeCode
  grind

theorem newline_notMem_encodeQuoted (text : List Char) : '\n' ∉ encodeQuoted text := by
  have hquote : quoteFor text ≠ '\n' := by
    rcases quoteFor_cases text with h | h <;> rw [h] <;> decide
  simp [encodeQuoted, newline_notMem_encodeQuotedChar hquote, hquote.symm]

end GrammarLint.Text
