import GrammarLint.Document.Value
import GrammarLint.Decimal.Shortest
import GrammarLint.Text.Cursor
import GrammarLint.Text.Hex
import GrammarLint.Text.Position

/-!
# Reading documents

A document is one JSON value with white space around it.  The numbers `NaN`,
`Infinity` and `-Infinity` are accepted, and of two fields with one name the
last value counts.  Every refusal names the offset at which reading stopped.
-/

namespace GrammarLint.Document

open Text

inductive ReadFault where
  | value
  | fieldName
  | colon
  | comma
  | extra
  | unterminated
  | escape
  | codeEscape
  | control
  | mark
  | digits (count : Nat)
  deriving DecidableEq, Repr

structure ReadError where
  fault : ReadFault
  offset : Nat
  deriving DecidableEq, Repr

def maxDigits : Nat := 4300

def ReadFault.message : ReadFault → String
  | .value => "Expecting value"
  | .fieldName => "Expecting property name enclosed in double quotes"
  | .colon => "Expecting ':' delimiter"
  | .comma => "Expecting ',' delimiter"
  | .extra => "Extra data"
  | .unterminated => "Unterminated string starting at"
  | .escape => "Invalid \\escape"
  | .codeEscape => "Invalid \\uXXXX escape"
  | .control => "Invalid control character at"
  | .mark => "Unexpected UTF-8 BOM (decode using utf-8-sig)"
  | .digits count =>
      s!"Exceeds the limit ({maxDigits} digits) for integer string conversion: " ++
      s!"value has {count} digits; use sys.set_int_max_str_digits() to increase the limit"

def ReadError.message (e : ReadError) (chars : List Char) : String :=
  let place := Position.ofOffset chars e.offset
  s!"{e.fault.message}: line {place.line} column {place.column + 1} (char {e.offset})"

def isLayout (c : Char) : Bool :=
  c == ' ' || c == '\t' || c == '\n' || c == '\r'

/-! ## Strings -/

def simpleEscape? : Char → Option Char
  | '"' => some '"'
  | '\\' => some '\\'
  | '/' => some '/'
  | 'b' => some '\x08'
  | 'f' => some '\x0c'
  | 'n' => some '\n'
  | 'r' => some '\r'
  | 't' => some '\t'
  | _ => none

def isHighHalf (code : Nat) : Bool := 0xD800 ≤ code && code < 0xDC00

def isLowHalf (code : Nat) : Bool := 0xDC00 ≤ code && code < 0xE000

def joinHalves (high low : Nat) : Nat :=
  0x10000 + (high - 0xD800) * 0x400 + (low - 0xDC00)

/-- The characters found, latest first, after the escape of `code`; `pending` is the first half
of a pair if that stands right before it.  There are none once half of a pair stands alone. -/
def pushCode (pending : Option Nat) (found : Option (List Char)) (code : Nat) :
    Option (List Char) :=
  match pending with
  | some high =>
      if isLowHalf code then found.map (Char.ofNat (joinHalves high code) :: ·) else none
  | none =>
      if isLowHalf code then none
      else if isHighHalf code then found
      else found.map (Char.ofNat code :: ·)

def pushChar (pending : Option Nat) (found : Option (List Char)) (c : Char) :
    Option (List Char) :=
  match pending with
  | some _ => none
  | none => found.map (c :: ·)

def textOf (pending : Option Nat) (found : Option (List Char)) : Option String :=
  match pending with
  | some _ => none
  | none => found.map fun chars => String.ofList chars.reverse

/-- Reads on in the string whose quote opens at `opening`.  A string in which half of a pair
stands alone has no text. -/
def readString (opening offset : Nat) (found : Option (List Char)) (pending : Option Nat) :
    List Char → Except ReadError (Option String × Cursor)
  | [] => .error ⟨.unterminated, opening⟩
  | '"' :: rest => .ok (textOf pending found, ⟨offset + 1, rest⟩)
  | '\\' :: rest =>
      match rest with
      | [] => .error ⟨.unterminated, opening⟩
      | 'u' :: a :: b :: c :: d :: rest =>
          match decodeHex? 0 [a, b, c, d] with
          | some code =>
              if rest.isEmpty then .error ⟨.codeEscape, offset + 1⟩
              else
                readString opening (offset + 6) (pushCode pending found code)
                  (if isHighHalf code then some code else none) rest
          | none => .error ⟨.codeEscape, offset + 1⟩
      | 'u' :: _ => .error ⟨.codeEscape, offset + 1⟩
      | e :: rest =>
          match simpleEscape? e with
          | some c => readString opening (offset + 2) (pushChar pending found c) none rest
          | none => .error ⟨.escape, offset⟩
  | c :: rest =>
      if c.toNat < 0x20 then .error ⟨.control, offset⟩
      else readString opening (offset + 1) (pushChar pending found c) none rest

/-! ## Numbers -/

def digitValue (digits : List Char) : Nat :=
  digits.foldl (fun n c => n * 10 + (c.toNat - 48)) 0

def wholeDigits (chars : List Char) : List Char :=
  match chars with
  | '0' :: _ => ['0']
  | _ => chars.takeWhile Char.isDigit

def fractionDigits (chars : List Char) : List Char :=
  match chars with
  | '.' :: rest => rest.takeWhile Char.isDigit
  | _ => []

def exponentPart (chars : List Char) : Int × Nat :=
  match chars with
  | e :: rest =>
      if e == 'e' || e == 'E' then
        let negative := rest.head? == some '-'
        let signed := negative || rest.head? == some '+'
        let digits := (if signed then rest.drop 1 else rest).takeWhile Char.isDigit
        if digits.isEmpty then (0, 0)
        else
          let size : Int := digitValue digits
          (if negative then -size else size, digits.length + (if signed then 2 else 1))
      else (0, 0)
  | [] => (0, 0)

def readNumber (cursor : Cursor) : Except ReadError (Value × Cursor) :=
  let negative := cursor.rest.head? == some '-'
  let sign := if negative then 1 else 0
  let body := cursor.rest.drop sign
  let whole := wholeDigits body
  if whole.isEmpty then .error ⟨.value, cursor.offset⟩
  else
    let afterWhole := body.drop whole.length
    let fraction := fractionDigits afterWhole
    let point := if fraction.isEmpty then 0 else fraction.length + 1
    let (exponent, tail) := exponentPart (afterWhole.drop point)
    let length := sign + whole.length + point + tail
    let next : Cursor := ⟨cursor.offset + length, cursor.rest.drop length⟩
    if point = 0 ∧ tail = 0 then
      if maxDigits < whole.length then .error ⟨.digits whole.length, cursor.offset⟩
      else
        let size : Int := digitValue whole
        .ok (.int (if negative then -size else size), next)
    else
      let coefficient := digitValue (whole ++ fraction)
      .ok (.float (Decimal.floatOf negative coefficient (exponent - fraction.length)), next)

/-! ## Values -/

def words : List (List Char × Value) := [
  ("null".toList, .null),
  ("true".toList, .bool true),
  ("false".toList, .bool false),
  ("NaN".toList, .float (0.0 / 0.0)),
  ("Infinity".toList, .float (1.0 / 0.0)),
  ("-Infinity".toList, .float (-1.0 / 0.0))]

def readWord? (cursor : Cursor) : Option (Value × Cursor) :=
  words.findSome? fun (word, value) =>
    (cursor.expect? word).map fun next => (value, next)

mutual

/-- Reads the value that starts at the cursor, which is none if a string in it has no text.
Between two calls of the same reader at least one character is passed, so twice the length
of the text bounds their depth. -/
def readValue : (fuel : Nat) → Cursor → Except ReadError (Option Value × Cursor)
  | 0, cursor => .error ⟨.value, cursor.offset⟩
  | fuel + 1, cursor =>
      match cursor.rest with
      | '"' :: rest =>
          match readString cursor.offset (cursor.offset + 1) (some []) none rest with
          | .ok (text, next) => .ok (text.map .string, next)
          | .error e => .error e
      | '[' :: rest =>
          let inside := (Cursor.mk (cursor.offset + 1) rest).skip isLayout
          match inside.rest with
          | ']' :: rest => .ok (some (.list []), ⟨inside.offset + 1, rest⟩)
          | _ => readItems fuel (some []) inside
      | '\x7b' :: rest =>
          let inside := (Cursor.mk (cursor.offset + 1) rest).skip isLayout
          match inside.rest with
          | '\x7d' :: rest => .ok (some (.object []), ⟨inside.offset + 1, rest⟩)
          | _ => readFields fuel (some []) inside
      | _ =>
          match readWord? cursor with
          | some (value, next) => .ok (some value, next)
          | none =>
              match readNumber cursor with
              | .ok (value, next) => .ok (some value, next)
              | .error e => .error e

def readItems : (fuel : Nat) → (found : Option (List Value)) → Cursor →
    Except ReadError (Option Value × Cursor)
  | 0, _, cursor => .error ⟨.value, cursor.offset⟩
  | fuel + 1, found, cursor =>
      match readValue fuel cursor with
      | .error e => .error e
      | .ok (item, next) =>
          let next := next.skip isLayout
          let found := do return (← item) :: (← found)
          match next.rest with
          | ']' :: rest =>
              .ok (found.map fun items => .list items.reverse, ⟨next.offset + 1, rest⟩)
          | ',' :: rest =>
              readItems fuel found ((Cursor.mk (next.offset + 1) rest).skip isLayout)
          | _ => .error ⟨.comma, next.offset⟩

def readFields : (fuel : Nat) → (found : Option (List (String × Value))) → Cursor →
    Except ReadError (Option Value × Cursor)
  | 0, _, cursor => .error ⟨.value, cursor.offset⟩
  | fuel + 1, found, cursor =>
      match cursor.rest with
      | '"' :: rest =>
          match readString cursor.offset (cursor.offset + 1) (some []) none rest with
          | .error e => .error e
          | .ok (name, next) =>
              let next := next.skip isLayout
              match next.rest with
              | ':' :: rest =>
                  match readValue fuel ((Cursor.mk (next.offset + 1) rest).skip isLayout) with
                  | .error e => .error e
                  | .ok (value, next) =>
                      let next := next.skip isLayout
                      let fields := do return setField (← name) (← value) (← found)
                      match next.rest with
                      | '\x7d' :: rest => .ok (fields.map .object, ⟨next.offset + 1, rest⟩)
                      | ',' :: rest =>
                          readFields fuel fields
                            ((Cursor.mk (next.offset + 1) rest).skip isLayout)
                      | _ => .error ⟨.comma, next.offset⟩
              | _ => .error ⟨.colon, next.offset⟩
      | _ => .error ⟨.fieldName, cursor.offset⟩

end

/-- Reads a document.  It is none if it is one but a string in it has no text. -/
def read (chars : List Char) : Except ReadError (Option Value) :=
  if chars.head? = some '\uFEFF' then .error ⟨.mark, 0⟩
  else
    match readValue (2 * chars.length + 2) ((Cursor.start chars).skip isLayout) with
    | .error e => .error e
    | .ok (value, next) =>
        let next := next.skip isLayout
        if next.rest.isEmpty then .ok value else .error ⟨.extra, next.offset⟩

end GrammarLint.Document
