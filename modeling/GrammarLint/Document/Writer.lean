import GrammarLint.Document.Value
import GrammarLint.Decimal.Shortest
import GrammarLint.Text.Hex
import GrammarLint.Text.Quoted

/-!
# Writing documents

`render` writes a document on one line, `renderIndented` one item or field a
line.  Both write ASCII only: every other character is escaped by its UTF-16
units.  `literal` is the form in which messages show a value.
-/

namespace GrammarLint.Document

open Text

/-! ## Strings in ASCII -/

def encodeUnit (code : Nat) : List Char :=
  '\\' :: 'u' :: encodeHex 4 code

def encodeChar (c : Char) : List Char :=
  if c = '"' then ['\\', '"']
  else if c = '\\' then ['\\', '\\']
  else if c = '\n' then ['\\', 'n']
  else if c = '\r' then ['\\', 'r']
  else if c = '\t' then ['\\', 't']
  else if c = '\x08' then ['\\', 'b']
  else if c = '\x0c' then ['\\', 'f']
  else
    let code := c.toNat
    if 0x20 ≤ code ∧ code < 0x7F then [c]
    else if code < 0x10000 then encodeUnit code
    else
      encodeUnit (0xD800 + (code - 0x10000) / 0x400) ++
        encodeUnit (0xDC00 + (code - 0x10000) % 0x400)

def encodeString (text : String) : String :=
  String.ofList ('"' :: text.toList.flatMap encodeChar ++ ['"'])

/-! ## One line -/

def floatWord (x : Float) : String :=
  match Decimal.floatText x with
  | "nan" => "NaN"
  | "inf" => "Infinity"
  | "-inf" => "-Infinity"
  | text => text

mutual

def render : Value → String
  | .null => "null"
  | .bool value => if value then "true" else "false"
  | .int value => toString value
  | .float value => floatWord value
  | .string value => encodeString value
  | .list items => "[" ++ String.intercalate ", " (renderItems items) ++ "]"
  | .object fields => "\x7b" ++ String.intercalate ", " (renderFields fields) ++ "\x7d"

def renderItems : List Value → List String
  | [] => []
  | item :: items => render item :: renderItems items

def renderFields : List (String × Value) → List String
  | [] => []
  | (name, value) :: fields =>
      (encodeString name ++ ": " ++ render value) :: renderFields fields

end

/-! ## One item a line -/

def indentStep : Nat := 2

def freshLine (level : Nat) : String :=
  "\n" ++ String.ofList (List.replicate (indentStep * level) ' ')

def block (level : Nat) (opening closing : String) (parts : List String) : String :=
  if parts.isEmpty then opening ++ closing
  else
    opening ++ freshLine (level + 1) ++
      String.intercalate ("," ++ freshLine (level + 1)) parts ++ freshLine level ++ closing

mutual

def renderIndented (level : Nat) : Value → String
  | .list items => block level "[" "]" (indentedItems (level + 1) items)
  | .object fields => block level "\x7b" "\x7d" (indentedFields (level + 1) fields)
  | .null => "null"
  | .bool value => if value then "true" else "false"
  | .int value => toString value
  | .float value => floatWord value
  | .string value => encodeString value

def indentedItems (level : Nat) : List Value → List String
  | [] => []
  | item :: items => renderIndented level item :: indentedItems level items

def indentedFields (level : Nat) : List (String × Value) → List String
  | [] => []
  | (name, value) :: fields =>
      (encodeString name ++ ": " ++ renderIndented level value) :: indentedFields level fields

end

/-! ## Literals -/

mutual

/-- The value as messages show it: words are capitalised and texts are quoted. -/
def literal : Value → String
  | .null => "None"
  | .bool value => if value then "True" else "False"
  | .int value => toString value
  | .float value => Decimal.floatText value
  | .string value => quoted value
  | .list items => "[" ++ String.intercalate ", " (literalItems items) ++ "]"
  | .object fields => "\x7b" ++ String.intercalate ", " (literalFields fields) ++ "\x7d"

def literalItems : List Value → List String
  | [] => []
  | item :: items => literal item :: literalItems items

def literalFields : List (String × Value) → List String
  | [] => []
  | (name, value) :: fields => (quoted name ++ ": " ++ literal value) :: literalFields fields

end

def plainText : Value → String
  | .string value => value
  | value => literal value

end GrammarLint.Document
