import PeerCall.Decimal.Double
import PeerCall.Json.Tree

/-!
# Reports

A report describes one stream of a connection by named attributes. A name may be there without a
value, which means that the stream has such an attribute but no value for it in this poll.
-/

namespace PeerCall.Metrics

/-- The value of an attribute. -/
inductive Value
  | unsigned (value : UInt64)
  | signed (value : Int64)
  | float (value : Float)
  | text (value : String)
  | flag (value : Bool)

namespace Value

/-- A JSON number as a value. -/
def ofNumber : Json.Number → Value
  | .unsigned n => .unsigned n
  | .signed i => .signed i
  | .float f => .float f

/-- A JSON scalar as a value. -/
def ofTree? : Json.Tree → Option Value
  | .number n => some (ofNumber n.number)
  | .text s => some (.text s)
  | .bool b => some (.flag b)
  | _ => none

/-- A number as the nearest double. -/
def toFloat? : Value → Option Float
  | .unsigned n => some n.toFloat
  | .signed i => some (Float.ofInt i.toInt)
  | .float f => some f
  | _ => none

/-- A number as a signed 64-bit integer. Unsigned integers beyond the range and doubles with a
fraction have none; whole doubles beyond the range are taken to its nearest end. -/
def toInt64? : Value → Option Int64
  | .unsigned n => if n.toNat < Nat.pow 2 63 then some (Int64.ofNat n.toNat) else none
  | .signed i => some i
  | .float f =>
    match Decimal.Double.ofFloat f with
    | .finite _ m q => if Decimal.Double.isWhole m q then some (Decimal.cutToInt64 f) else none
    | _ => none
  | _ => none

/-- A text. -/
def text? : Value → Option String
  | .text s => some s
  | _ => none

end Value

/-- The attributes of a report: each name once. -/
abbrev Attributes := List (String × Option Value)

/-- Sets an attribute. -/
def Attributes.insert (name : String) (value : Option Value) (attributes : Attributes) :
    Attributes :=
  attributes.filter (·.1 ≠ name) ++ [(name, value)]

/-- A report on one stream. Times are in milliseconds, durations in seconds. -/
structure Report where
  id : String
  type : String
  attributes : Attributes

namespace Report

/-- The value under a name. -/
def value? (r : Report) (name : String) : Option Value := (r.attributes.lookup name).join

/-- The number under a name, as a double. -/
def float? (r : Report) (name : String) : Option Float := (r.value? name).bind Value.toFloat?

/-- The number under a name, as an integer. -/
def int? (r : Report) (name : String) : Option Int64 := (r.value? name).bind Value.toInt64?

/-- The text under a name. -/
def text? (r : Report) (name : String) : Option String := (r.value? name).bind Value.text?

end Report

end PeerCall.Metrics
