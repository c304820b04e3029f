import PeerCall.Metrics.Report
import PeerCall.Text.Part
import PeerCall.Text.Uppercase

/-!
# Reports from JSON records

Statistics come as records with keys in either spelling, `snake_case` or `camelCase`, with times
in seconds, and with type names of either convention. A report has one spelling, milliseconds and
one convention.
-/

namespace PeerCall.Metrics

open Json

/-- A key without underscores: the character after a run of them is a capital. -/
def camelFrom (capital : Bool) : List Char → List Char
  | [] => []
  | c :: rest =>
    if c = '_' then camelFrom true rest
    else if capital then Text.uppercase c ++ camelFrom false rest
    else c :: camelFrom false rest

/-- A key in `camelCase`. -/
def camelCase (key : String) : String := String.ofList (camelFrom false key.toList)

/-- The names that types go by in another convention. -/
def typeNames : List (String × String) :=
  [("InboundRTP", "inbound-rtp"), ("OutboundRTP", "outbound-rtp"),
    ("RemoteInboundRTP", "remote-inbound-rtp"), ("RemoteOutboundRTP", "remote-outbound-rtp"),
    ("CandidatePair", "candidate-pair")]

/-- The name of a type in the convention of reports. -/
def normalType (type : String) : String := (typeNames.lookup type).getD type

/-- Whether the number under a name is a time. -/
def isTimeName (name : String) : Bool := name == "timestamp" || Text.endsWith "Timestamp" name

/-- The members that say what a report is about and are no attributes. -/
def reserved : List String := ["type", "stats_type", "id"]

/-- A point in time given by its seconds and nanoseconds, in milliseconds. -/
def clockMs? (t : Tree) : Option Float :=
  match t.get? "secs_since_epoch", t.get? "nanos_since_epoch" with
  | some (.number seconds), some (.number nanos) =>
    some (seconds.number.toFloat * 1000.0 + nanos.number.toFloat / 1e6)
  | _, _ => none

/-- The attribute that a member gives under a name, if it gives one. -/
def attribute? (name : String) : Tree → Option (Option Value)
  | .null => some none
  | .number n =>
    if isTimeName name then some (some (.float (n.number.toFloat * 1000.0)))
    else some (some (.ofNumber n.number))
  | .record members => (clockMs? (.record members)).map fun ms => some (.float ms)
  | .list _ => none
  | scalar => (Value.ofTree? scalar).map some

/-- The members of a record by key, in the order of the keys; the last of equal keys counts. -/
def sortedMembers (members : List (String × Tree)) : List (String × Tree) :=
  let insert (sorted : List (String × Tree)) (m : String × Tree) :=
    sorted.takeWhile (·.1 < m.1) ++ m :: (sorted.dropWhile (·.1 < m.1)).filter (·.1 ≠ m.1)
  members.foldl insert []

/-- Adds what a member gives. -/
def addMember (attributes : Attributes) (m : String × Tree) : Attributes :=
  if reserved.contains m.1 then attributes
  else
    let name := camelCase m.1
    match attribute? name m.2 with
    | some value => attributes.insert name value
    | none => attributes

/-- The type that a record names: under `type`, or under `stats_type` in its absence. -/
def typeOf? (record : Tree) : Option String :=
  match (record.get? "type").or (record.get? "stats_type") with
  | some (.text type) => some (normalType type)
  | _ => none

/-- The report of a record that names its type. -/
def Report.ofTree? (id : String) : Tree → Option Report
  | .record members =>
    (typeOf? (.record members)).map fun type =>
      ⟨id, type, (sortedMembers members).foldl addMember []⟩
  | _ => none

/-- The reports of a batch of entries, in the order of their ids. The entries under some ids cannot
be written as records, and are left out. -/
def reportsOfEntries (entries : List (String × Tree)) (unwritten : List String) : List Report :=
  (sortedMembers entries).filterMap fun (id, entry) =>
    if unwritten.contains id then none else Report.ofTree? id entry

end PeerCall.Metrics
