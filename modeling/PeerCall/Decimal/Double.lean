/-!
# Doubles as exact numbers

The sign, significand and power of two behind the bits of a double, and what follows from them:
the integer part, and whether there is anything after it.
-/

namespace PeerCall.Decimal

/-- What a double stands for. -/
inductive Double
  | nan
  | infinite (negative : Bool)
  /-- The number `significand * 2 ^ power`, with its sign. -/
  | finite (negative : Bool) (significand : Nat) (power : Int)
  deriving DecidableEq, Repr

namespace Double

/-- Reads the fields of the bits: sign, eleven bits of exponent, 52 bits of fraction. -/
def ofBits (bits : Nat) : Double :=
  let negative := decide (bits / Nat.pow 2 63 % 2 = 1)
  let exponent : Nat := bits / Nat.pow 2 52 % Nat.pow 2 11
  let fraction : Nat := bits % Nat.pow 2 52
  if exponent = 2047 then if fraction = 0 then .infinite negative else .nan
  else if exponent = 0 then .finite negative fraction (-1074)
  else .finite negative (Nat.pow 2 52 + fraction) ((exponent : Int) - 1075)

/-- What a double stands for. -/
def ofFloat (f : Float) : Double := ofBits f.toBits.toNat

/-- The integer part of `m * 2 ^ q`. -/
def wholePart (m : Nat) (q : Int) : Nat :=
  if 0 ≤ q then m * Nat.pow 2 q.toNat else m / Nat.pow 2 (-q).toNat

/-- Whether `m * 2 ^ q` is an integer. -/
def isWhole (m : Nat) (q : Int) : Bool := 0 ≤ q || m % Nat.pow 2 (-q).toNat == 0

end Double

/-- The nearest of the signed 64-bit integers. -/
def clampInt64 (i : Int) : Int64 :=
  Int64.ofInt (max Int64.minValue.toInt (min Int64.maxValue.toInt i))

/-- A double cut to a signed 64-bit integer: towards zero, to the nearest limit beyond the range,
and to zero where it is no number. -/
def cutToInt64 (f : Float) : Int64 :=
  match Double.ofFloat f with
  | .nan => 0
  | .infinite negative => if negative then Int64.minValue else Int64.maxValue
  | .finite negative m q =>
    clampInt64 (if negative then -(Double.wholePart m q : Int) else Double.wholePart m q)

/-- The sixteen hexadecimal digits of the bits. -/
def hexBits (f : Float) : String :=
  let digits := Nat.toDigits 16 f.toBits.toNat
  String.ofList (List.replicate (16 - digits.length) '0' ++ digits)

end PeerCall.Decimal
