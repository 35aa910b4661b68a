import GrammarLint.Text.Hex
import GrammarLint.Text.Printable

/-!
# Quoted text

Messages and dumps show a text between quotes on one line.  Single quotes are
used unless the text holds a single quote and no double quote.  A backslash,
the quote in use, and the three common controls are escaped by a backslash;
every other character that is not printable is written by its code.
-/

namespace GrammarLint.Text

def quoteFor (chars : List Char) : Char :=
  if chars.contains '\'' && !chars.contains '"' then '"' else '\''

/-- The escape of a code: two digits below 256, four below 65536, else eight. -/
def encodeCode (code : Nat) : List Char :=
  if code < 0x100 then '\\' :: 'x' :: encodeHex 2 code
  else if code < 0x10000 then '\\' :: 'u' :: encodeHex 4 code
  else '\\' :: 'U' :: encodeHex 8 code

def encodeQuotedChar (quote c : Char) : List Char :=
  if c = quote ∨ c = '\\' then ['\\', c]
  else if c = '\n' then ['\\', 'n']
  else if c = '\r' then ['\\', 'r']
  else if c = '\t' then ['\\', 't']
  else if isPrintable c then [c]
  else encodeCode c.toNat

def encodeQuoted (chars : List Char) : List Char :=
  let quote := quoteFor chars
  quote :: chars.flatMap (encodeQuotedChar quote) ++ [quote]

def quoted (text : String) : String :=
  String.ofList (encodeQuoted text.toList)

end GrammarLint.Text
