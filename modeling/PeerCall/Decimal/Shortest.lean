import PeerCall.Decimal.Double

/-!
# The shortest decimal of a double

A double is the nearest one to a whole interval of numbers. Among the decimals in that interval
the one with the fewest digits is taken, and of several with that many digits the nearest to the
double. `Tie` settles the case of two that are equally near.
-/

namespace PeerCall.Decimal

/-- Which of two equally near decimals is taken. -/
inductive Tie
  | up
  /-- The one whose last digit is even. -/
  | even
  deriving DecidableEq, Repr

/-- The number `0.d₁d₂… * 10 ^ point`, without zeros at the end of its digits. -/
structure Digits where
  digits : List Char
  point : Int
  deriving DecidableEq, Repr

/-- The number of decimal digits of `n`, none for zero. -/
def digitCount (n : Nat) : Nat := if n = 0 then 0 else (Nat.toDigits 10 n).length

/-- How many times a fraction below one must be multiplied by ten to reach one, at most `limit`
times. -/
def leadingZeros (limit num den : Nat) : Nat :=
  match limit with
  | 0 => 0
  | limit + 1 => if den ≤ num then 0 else leadingZeros limit (10 * num) den + 1

/-- The exponent `k` for which `10 ^ (k - 1) ≤ num / den < 10 ^ k`. -/
def decimalPoint (num den : Nat) : Int :=
  if den ≤ num then digitCount (num / den) else 1 - (leadingZeros 330 num den : Int)

/-- The interval of numbers that round to `num / den`; every number is scaled by four times the
denominator. The ends belong to it if `closed`. -/
structure Interval where
  low : Nat
  value : Nat
  high : Nat
  scale : Nat
  closed : Bool

/-- The interval of the double `m * 2 ^ q`. Below a power of two the doubles lie twice as close. -/
def Interval.ofDouble (m : Nat) (q : Int) : Interval :=
  let unit := Nat.pow 2 q.toNat
  let scale := 4 * Nat.pow 2 (-q).toNat
  let below := if m = Nat.pow 2 52 ∧ -1074 < q then 1 else 2
  ⟨(4 * m - below) * unit, 4 * m * unit, (4 * m + 2) * unit, scale, m % 2 == 0⟩

/-- Whether the decimal `d * 10 ^ e` lies in the interval. -/
def Interval.has (i : Interval) (d : Nat) (e : Int) : Bool :=
  let x := d * Nat.pow 10 e.toNat * i.scale
  let unit := Nat.pow 10 (-e).toNat
  if i.closed then i.low * unit ≤ x && x ≤ i.high * unit
  else i.low * unit < x && x < i.high * unit

/-- The neighbour of the value on the grid of multiples of `10 ^ e` that lies in the interval, the
nearer one if both do. -/
def Interval.onGrid (i : Interval) (tie : Tie) (e : Int) : Option Nat :=
  let unit := Nat.pow 10 (-e).toNat * i.value
  let step := Nat.pow 10 e.toNat * i.scale
  let down := unit / step
  let up := down + 1
  match i.has down e, i.has up e with
  | false, false => none
  | true, false => some down
  | false, true => some up
  | true, true =>
    let toDown := unit - down * step
    let toUp := up * step - unit
    if toDown < toUp then some down
    else if toUp < toDown then some up
    else match tie with
      | .up => some up
      | .even => some (if down % 2 = 0 then down else up)

/-- The first of the grids with `digits`, `digits + 1`, … significant places, `tries` in all, that
has a decimal of the interval. -/
def Interval.search (i : Interval) (tie : Tie) (point : Int) (digits : Nat) :
    Nat → Nat × Int
  | 0 => (0, 0)
  | tries + 1 =>
    let e := point - digits
    match i.onGrid tie e with
    | some d => (d, e)
    | none => search i tie point (digits + 1) tries

/-- The digits of `d * 10 ^ e`. -/
def Digits.ofNat (d : Nat) (e : Int) : Digits :=
  let all := Nat.toDigits 10 d
  ⟨(all.reverse.dropWhile (· == '0')).reverse, all.length + e⟩

/-- The shortest decimal of the positive double `m * 2 ^ q`. Seventeen places always suffice. -/
def shortest (tie : Tie) (m : Nat) (q : Int) : Digits :=
  let interval := Interval.ofDouble m q
  let point := decimalPoint interval.value interval.scale
  let (d, e) := interval.search tie point 1 17
  Digits.ofNat d e

end PeerCall.Decimal
