/-!
# Numerals

A JSON number as it is written: a sign, a run of decimal digits and a power of ten. Its class
depends on the spelling: whole numbers in the 64-bit ranges stay whole, everything else is a
binary floating-point number.
-/

namespace PeerCall.Json

/-- The number `digits * 10 ^ exponent`, with its sign. -/
structure Numeral where
  negative : Bool
  digits : Nat
  exponent : Int
  /-- It was written without a point and without an exponent. -/
  isWhole : Bool
  deriving DecidableEq, Repr, Inhabited

/-- A number by class. -/
inductive Number
  /-- A whole number from 0 to `2 ^ 64 - 1`. -/
  | unsigned (value : UInt64)
  /-- A negative whole number down to `-2 ^ 63`. -/
  | signed (value : Int64)
  /-- Any other number, rounded to the nearest double. -/
  | float (value : Float)

namespace Numeral

/-- A whole number without a sign. -/
def ofNat (n : Nat) : Numeral := ⟨false, n, 0, true⟩

/-- The position of the leading digit, up to one place. -/
def magnitude (n : Numeral) : Int := n.exponent + (n.digits.log2 * 30103 / 100000 : Nat)

/-- The nearest double without the sign. Beyond 400 places to either side it is infinite or
zero, whatever the digits are. -/
def absFloat (n : Numeral) : Float :=
  if n.digits = 0 ∨ n.magnitude < -400 then 0
  else if 400 < n.magnitude then 1 / 0
  else Float.ofScientific n.digits (decide (n.exponent < 0)) n.exponent.natAbs

/-- The nearest double. -/
def toFloat (n : Numeral) : Float := if n.negative then -n.absFloat else n.absFloat

/-- The class of a numeral. Minus zero is no whole number. -/
def number (n : Numeral) : Number :=
  if n.isWhole ∧ ¬n.negative ∧ n.digits < UInt64.size then .unsigned (UInt64.ofNat n.digits)
  else if n.isWhole ∧ n.negative ∧ 0 < n.digits ∧ n.digits ≤ Nat.pow 2 63 then
    .signed (Int64.ofInt (-(n.digits : Int)))
  else .float n.toFloat

/-- The least number that no double is near enough to: half a step above the largest double. -/
def overflow : Nat := Nat.pow 2 1024 - Nat.pow 2 970

/-- Whether the nearest double is finite. Decimal text is read correctly rounded at the top of the
range, too, so a literal is out of range if and only if it would be read as infinite. The position
of the leading digit decides unless it is close to that of the largest double. -/
def inRange (n : Numeral) : Bool :=
  n.digits == 0 || decide (n.magnitude < 300) ||
    (decide (n.magnitude ≤ 400) &&
      decide (n.digits * Nat.pow 10 n.exponent.toNat <
        overflow * Nat.pow 10 (-n.exponent).toNat))

end Numeral

/-- The double nearest to a number. -/
def Number.toFloat : Number → Float
  | .unsigned n => n.toFloat
  | .signed i => Float.ofInt i.toInt
  | .float f => f

end PeerCall.Json
