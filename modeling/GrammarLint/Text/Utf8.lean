import GrammarLint.Text.Hex

/-!
# Reading text files

Files hold UTF-8.  Decoding is strict: a byte sequence that is not the shortest
form of a scalar value is refused with its place and the reason.  One leading
byte order mark is dropped, and the line breaks `"\r\n"` and `"\r"` become
`"\n"`.
-/

namespace GrammarLint.Text

inductive DecodeReason where
  | badStart
  | badContinuation
  | endOfData
  deriving DecidableEq, Repr

structure DecodeError where
  start : Nat
  length : Nat
  byte : UInt8
  reason : DecodeReason
  deriving DecidableEq, Repr

def DecodeReason.message : DecodeReason → String
  | .badStart => "invalid start byte"
  | .badContinuation => "invalid continuation byte"
  | .endOfData => "unexpected end of data"

def DecodeError.message (e : DecodeError) : String :=
  let place :=
    if e.length ≤ 1 then
      s!"byte 0x{String.ofList (encodeHex 2 e.byte.toNat)} in position {e.start}"
    else s!"bytes in position {e.start}-{e.start + e.length - 1}"
  s!"'utf-8' codec can't decode {place}: {e.reason.message}"

namespace Utf8

def encode (chars : List Char) : List UInt8 :=
  chars.flatMap String.utf8EncodeChar

/-- The number of bytes a sequence has by its first byte, the payload of that
byte, and the bounds of the second byte. -/
structure Lead where
  length : Nat
  payload : Nat
  low : Nat
  high : Nat
  deriving DecidableEq, Repr

def lead? (byte : Nat) : Option Lead :=
  if byte < 0x80 then some ⟨1, byte, 0, 0⟩
  else if byte < 0xC2 then none
  else if byte < 0xE0 then some ⟨2, byte - 0xC0, 0x80, 0xBF⟩
  else if byte = 0xE0 then some ⟨3, 0, 0xA0, 0xBF⟩
  else if byte = 0xED then some ⟨3, 0xD, 0x80, 0x9F⟩
  else if byte < 0xF0 then some ⟨3, byte - 0xE0, 0x80, 0xBF⟩
  else if byte = 0xF0 then some ⟨4, 0, 0x90, 0xBF⟩
  else if byte < 0xF4 then some ⟨4, byte - 0xF0, 0x80, 0xBF⟩
  else if byte = 0xF4 then some ⟨4, 4, 0x80, 0x8F⟩
  else none

def isTail (low high : Nat) (byte : UInt8) : Bool :=
  low ≤ byte.toNat && byte.toNat ≤ high

def extend (payload : Nat) (byte : UInt8) : Nat :=
  payload * 0x40 + byte.toNat % 0x40

def decodeFrom (start : Nat) (found : List Char) :
    List UInt8 → Except DecodeError (List Char)
  | [] => .ok found.reverse
  | b :: rest =>
      match lead? b.toNat with
      | none => .error ⟨start, 1, b, .badStart⟩
      | some ⟨1, payload, _, _⟩ =>
          decodeFrom (start + 1) (Char.ofNat payload :: found) rest
      | some ⟨length, payload, low, high⟩ =>
          match rest with
          | [] => .error ⟨start, 1, b, .endOfData⟩
          | b₁ :: rest =>
            if !isTail low high b₁ then .error ⟨start, 1, b, .badContinuation⟩
            else if length = 2 then
              decodeFrom (start + 2) (Char.ofNat (extend payload b₁) :: found) rest
            else
              match rest with
              | [] => .error ⟨start, 2, b, .endOfData⟩
              | b₂ :: rest =>
                if !isTail 0x80 0xBF b₂ then .error ⟨start, 2, b, .badContinuation⟩
                else if length = 3 then
                  decodeFrom (start + 3)
                    (Char.ofNat (extend (extend payload b₁) b₂) :: found) rest
                else
                  match rest with
                  | [] => .error ⟨start, 3, b, .endOfData⟩
                  | b₃ :: rest =>
                    if !isTail 0x80 0xBF b₃ then .error ⟨start, 3, b, .badContinuation⟩
                    else
                      decodeFrom (start + 4)
                        (Char.ofNat (extend (extend (extend payload b₁) b₂) b₃) :: found)
                        rest

def decode (bytes : List UInt8) : Except DecodeError (List Char) :=
  decodeFrom 0 [] bytes

end Utf8

/-! ## Byte order mark and line breaks -/

def byteOrderMark : List UInt8 := [0xEF, 0xBB, 0xBF]

/-- Drops one leading mark; a file that holds only a part of the mark is empty. -/
def dropMark (bytes : List UInt8) : List UInt8 :=
  if byteOrderMark.isPrefixOf bytes then bytes.drop 3
  else if bytes.isPrefixOf byteOrderMark then []
  else bytes

def joinBreaks (found : List Char) : List Char → List Char
  | [] => found.reverse
  | '\r' :: '\n' :: chars => joinBreaks ('\n' :: found) chars
  | '\r' :: chars => joinBreaks ('\n' :: found) chars
  | c :: chars => joinBreaks (c :: found) chars

def decodeFile (bytes : List UInt8) : Except DecodeError String :=
  match Utf8.decode (dropMark bytes) with
  | .ok chars => .ok (String.ofList (joinBreaks [] chars))
  | .error e => .error e

end GrammarLint.Text
