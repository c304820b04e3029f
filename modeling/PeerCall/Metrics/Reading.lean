/-!
# Readings

A value together with where it comes from: it was measured in this poll, or it is held from an
earlier one. `Held` keeps the last measured value of one field, `Rate` the last bit rate computed
from a running count of bytes.
-/

namespace PeerCall.Metrics

/-- A value, and whether it was measured in this poll. -/
structure Reading (α : Type) where
  value : α
  isFresh : Bool
  deriving DecidableEq, Repr

/-- A reading measured in this poll. -/
def Reading.fresh {α : Type} (value : α) : Reading α := ⟨value, true⟩

/-- A reading held from an earlier poll. -/
def Reading.held {α : Type} (value : α) : Reading α := ⟨value, false⟩

/-- The last measured value of a field. -/
structure Held (α : Type) where
  last : Option α := none
  deriving DecidableEq, Repr

/-- A measured sample replaces the held value; a missing one shows it, or the default if nothing
has been measured yet. -/
def Held.observe {α : Type} [Inhabited α] (h : Held α) : Option α → Reading α × Held α
  | some value => (.fresh value, ⟨some value⟩)
  | none => (.held (h.last.getD default), h)

/-- The lowest rate that counts as measured, in megabits per second. -/
def rateFloor : Float := 1e-6

/-- The last rate, and the count of bytes with its time in seconds that the next one starts
from. -/
structure Rate where
  baseline : Option (Float × Float) := none
  last : Option Float := none

namespace Rate

/-- The larger of a number and zero; zero if it is no number. -/
def atLeastZero (x : Float) : Float := if 0 < x then x else 0

/-- The rate in megabits per second between two samples, none if no time has passed. -/
def between (earlier later : Float × Float) : Option Float :=
  let elapsed := (later.2 - earlier.2).abs
  if elapsed == 0 then none else some (atLeastZero (later.1 - earlier.1) / elapsed * 8.0 / 1e6)

/-- A sample of the running count and its time in milliseconds. A whole sample moves the baseline
whether or not it gives a rate. -/
def observe (r : Rate) (bytes timestampMs : Option Float) : Reading (Option Float) × Rate :=
  match bytes, timestampMs with
  | some bytes, some timestampMs =>
    let sample := (bytes, timestampMs / 1000.0)
    match r.baseline.bind (between · sample) with
    | some rate =>
      if rateFloor ≤ rate then (.fresh (some rate), ⟨some sample, some rate⟩)
      else (.held r.last, ⟨some sample, r.last⟩)
    | none => (.held r.last, ⟨some sample, r.last⟩)
  | _, _ => (.held (some (r.last.getD 0)), r)

end Rate

end PeerCall.Metrics
