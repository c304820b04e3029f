import PeerCall.Decimal.Shortest

/-!
# Layouts of a decimal

How the digits of a double are set out: all places around the point, or one digit before the point
and a power of ten after it.
-/

namespace PeerCall.Decimal

/-- The choices of a layout. -/
structure Layout where
  tie : Tie
  /-- The exponents of the leading digit that are written without a power of ten; `none` stands
  for all. -/
  positional : Option (Int × Int)
  /-- What marks a whole number. -/
  wholeMark : String

namespace Layout

/-- All places of a decimal; `mark` follows a whole number. -/
def places (mark : List Char) (d : Digits) : List Char :=
  if d.point ≤ 0 then '0' :: '.' :: List.replicate (-d.point).toNat '0' ++ d.digits
  else
    let before := d.point.toNat
    if d.digits.length ≤ before then
      d.digits ++ List.replicate (before - d.digits.length) '0' ++ mark
    else d.digits.take before ++ '.' :: d.digits.drop before

/-- One digit, the others after the point, and the exponent with its sign. -/
def scientific (d : Digits) : List Char :=
  let exponent := d.point - 1
  let sign := if exponent < 0 then '-' else '+'
  let tail := if d.digits.tail.isEmpty then [] else '.' :: d.digits.tail
  d.digits.take 1 ++ tail ++ 'e' :: sign :: (toString exponent.natAbs).toList

/-- A positive double. -/
def positive (layout : Layout) (m : Nat) (q : Int) : List Char :=
  let d := shortest layout.tie m q
  match layout.positional with
  | none => places layout.wholeMark.toList d
  | some (low, high) =>
    if low ≤ d.point - 1 ∧ d.point - 1 ≤ high then places layout.wholeMark.toList d
    else scientific d

/-- The text of a double. -/
def write (layout : Layout) (f : Float) : String :=
  match Double.ofFloat f with
  | .nan => "NaN"
  | .infinite negative => if negative then "-inf" else "inf"
  | .finite negative m q =>
    let unsigned := if m = 0 then '0' :: layout.wholeMark.toList else layout.positive m q
    String.ofList (if negative then '-' :: unsigned else unsigned)

end Layout

end PeerCall.Decimal
