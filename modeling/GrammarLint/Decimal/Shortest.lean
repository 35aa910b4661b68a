/-!
# The shortest decimal of a binary number

A binary64 number is `m * 2 ^ q`.  The reals that round to it form an interval
around it, whose ends belong to it exactly when `m` is even.  Its shortest
decimal is the one with the fewest digits in that interval, and among those the
one nearest to the number.  All comparisons are between natural numbers.
-/

namespace GrammarLint.Decimal

structure Scaled where
  coefficient : Nat
  exponent : Int
  deriving DecidableEq, Repr

/-- A positive binary64 number `significand * 2 ^ exponent`; `narrowBelow` holds
when the gap to the next smaller number is half the gap to the next larger one. -/
structure Binary where
  significand : Nat
  exponent : Int
  narrowBelow : Bool
  deriving DecidableEq, Repr

def twos (exponent : Int) : Nat := Nat.pow 2 exponent.toNat

def tens (exponent : Int) : Nat := Nat.pow 10 exponent.toNat

def compareScaled (a : Nat) (p : Int) (b : Nat) (k : Int) : Ordering :=
  compare (a * twos p * tens (-k)) (b * tens k * twos (-p))

namespace Binary

/-- True when the decimal rounds to the number. -/
def admits (x : Binary) (d : Scaled) : Bool :=
  let lower := 4 * x.significand - (if x.narrowBelow then 1 else 2)
  let upper := 4 * x.significand + 2
  let closed := x.significand % 2 == 0
  let low := compareScaled lower (x.exponent - 2) d.coefficient d.exponent
  let high := compareScaled upper (x.exponent - 2) d.coefficient d.exponent
  (low == .lt || (closed && low == .eq)) && (high == .gt || (closed && high == .eq))

def magnitude (x : Binary) : Int :=
  let estimate := Int.fdiv ((x.significand.log2 + x.exponent) * 30103) 100000
  let reaches (p : Int) : Bool := compareScaled x.significand x.exponent 1 p != .lt
  if reaches (estimate + 1) then estimate + 1
  else if reaches estimate then estimate
  else estimate - 1

def floorAt (x : Binary) (k : Int) : Nat :=
  (x.significand * twos x.exponent * tens (-k)) / (tens k * twos (-x.exponent))

/-- The nearest admitted neighbour on the grid of `10 ^ k`; a tie goes to the even one. -/
def onGrid? (x : Binary) (k : Int) : Option Scaled :=
  let below : Scaled := ⟨x.floorAt k, k⟩
  let above : Scaled := ⟨x.floorAt k + 1, k⟩
  match x.admits below, x.admits above with
  | true, true =>
      match compareScaled (2 * x.significand) x.exponent (2 * x.floorAt k + 1) k with
      | .lt => some below
      | .gt => some above
      | .eq => some (if x.floorAt k % 2 == 0 then below else above)
  | true, false => some below
  | false, true => some above
  | false, false => none

/-- Tries grids from the coarsest on; seventeen digits always suffice. -/
def shortestFrom (x : Binary) (top : Int) : (tries : Nat) → (digits : Nat) → Scaled
  | 0, digits => ⟨x.floorAt (top - digits), top - digits⟩
  | tries + 1, digits =>
      match x.onGrid? (top - digits) with
      | some d => d
      | none => shortestFrom x top tries (digits + 1)

def shortest (x : Binary) : Scaled :=
  shortestFrom x x.magnitude 17 0

end Binary

/-! ## Text of a number -/

structure NumberFormat where
  positionalFrom : Int
  positionalTo : Int
  deriving DecidableEq, Repr

/-- Numbers from `0.0001` up to but not including `10 ^ 16` are positional. -/
def plainFormat : NumberFormat := ⟨-4, 15⟩

def dropTrailingZeros (digits : List Char) : List Char :=
  (digits.reverse.dropWhile (· == '0')).reverse

def zeros (n : Nat) : List Char := List.replicate n '0'

def exponentText (e : Int) : String :=
  let size := toString e.natAbs
  (if e < 0 then "-" else "+") ++ (if size.length < 2 then "0" ++ size else size)

def NumberFormat.write (format : NumberFormat) (digits : List Char) (lead : Int) : String :=
  if format.positionalFrom ≤ lead ∧ lead ≤ format.positionalTo then
    if lead < 0 then "0." ++ String.ofList (zeros (-lead - 1).toNat ++ digits)
    else
      let size := lead.toNat + 1
      let whole := digits.take size ++ zeros (size - digits.length)
      let part := digits.drop size
      String.ofList whole ++ "." ++ (if part.isEmpty then "0" else String.ofList part)
  else
    let mantissa :=
      match digits with
      | [] => "0"
      | [d] => String.ofList [d]
      | d :: part => String.ofList (d :: '.' :: part)
    mantissa ++ "e" ++ exponentText lead

def Scaled.text (d : Scaled) : String :=
  let digits := Nat.toDigits 10 d.coefficient
  plainFormat.write (dropTrailingZeros digits) (d.exponent + digits.length - 1)

def floatText (x : Float) : String :=
  let bits := x.toBits.toNat
  let sign := if bits / twos 63 == 1 then "-" else ""
  let scale : Nat := bits / twos 52 % twos 11
  let fraction : Nat := bits % twos 52
  if scale == 2047 then (if fraction == 0 then sign ++ "inf" else "nan")
  else if scale == 0 ∧ fraction == 0 then sign ++ "0.0"
  else
    let binary : Binary :=
      if scale == 0 then ⟨fraction, -1074, false⟩
      else ⟨fraction + twos 52, (scale : Int) - 1075, fraction == 0 && scale != 1⟩
    sign ++ binary.shortest.text

def floatOf (negative : Bool) (coefficient : Nat) (exponent : Int) : Float :=
  let lead := exponent + (Nat.toDigits 10 coefficient).length
  let size : Float :=
    if coefficient == 0 ∨ lead < -400 then 0.0
    else if lead > 400 then 1.0 / 0.0
    else Float.ofScientific coefficient (exponent < 0) exponent.natAbs
  if negative then -size else size

end GrammarLint.Decimal
