/-!
# Offsets and positions

A position is a line, counted from one, and a column, counted from zero; both
count characters, and a line ends at `'\n'` only.  `Position.ofOffset` counts the
lines of the text before an offset.  `LineIndex` keeps the offsets at which
lines start, so that many offsets of one text are located by bisection.
-/

namespace GrammarLint.Text

structure Position where
  line : Nat
  column : Nat
  deriving DecidableEq, Repr

namespace Position

def sinceBreak (chars : List Char) : Nat :=
  (chars.reverse.takeWhile (· != '\n')).length

def ofOffset (chars : List Char) (offset : Nat) : Position :=
  let before := chars.take offset
  ⟨before.count '\n' + 1, sinceBreak before⟩

end Position

structure LineIndex where
  starts : Array Nat
  deriving DecidableEq, Repr

namespace LineIndex

def startsFrom (offset : Nat) (found : Array Nat) : List Char → Array Nat
  | [] => found
  | c :: chars =>
      startsFrom (offset + 1) (if c = '\n' then found.push (offset + 1) else found) chars

def ofChars (chars : List Char) : LineIndex :=
  ⟨startsFrom 0 #[0] chars⟩

/-- The number of starts in `starts` that are at most `offset`, known to lie
between `low` and `high`; every step halves the distance. -/
def bisect (starts : Array Nat) (offset : Nat) : (fuel low high : Nat) → Nat
  | 0, low, _ => low
  | fuel + 1, low, high =>
      if low < high then
        let middle := (low + high) / 2
        if offset < starts.getD middle 0 then bisect starts offset fuel low middle
        else bisect starts offset fuel (middle + 1) high
      else low

def locate (index : LineIndex) (offset : Nat) : Position :=
  let line := bisect index.starts offset index.starts.size 0 index.starts.size
  ⟨line, offset - index.starts.getD (line - 1) 0⟩

end LineIndex

end GrammarLint.Text
