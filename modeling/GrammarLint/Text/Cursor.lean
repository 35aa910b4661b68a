/-!
# Cursors

A place in a text, with the characters that follow it.  The offset counts the
characters before the place.
-/

namespace GrammarLint.Text

structure Cursor where
  offset : Nat
  rest : List Char
  deriving DecidableEq, Repr

namespace Cursor

def start (chars : List Char) : Cursor := ⟨0, chars⟩

def past (cursor : Cursor) (consumed rest : List Char) : Cursor :=
  ⟨cursor.offset + consumed.length, rest⟩

def skip (cursor : Cursor) (p : Char → Bool) : Cursor :=
  cursor.past (cursor.rest.takeWhile p) (cursor.rest.dropWhile p)

def expect? (cursor : Cursor) (word : List Char) : Option Cursor :=
  if word.isPrefixOf cursor.rest then
    some (cursor.past word (cursor.rest.drop word.length))
  else none

end Cursor

end GrammarLint.Text
