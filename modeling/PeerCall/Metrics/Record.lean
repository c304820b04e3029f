import PeerCall.Metrics.Reading
import PeerCall.Metrics.Report

/-!
# Records

What is derived from one report in one poll. A ledger keeps, for each report id, the readings that
later polls may have to hold.
-/

namespace PeerCall.Metrics

/-- The types of report that records are derived from. -/
inductive Category
  | inboundRtp
  | remoteInboundRtp
  | outboundRtp
  | candidatePair
  deriving DecidableEq, Repr

namespace Category

/-- The type of report of a category. -/
def type : Category → String
  | .inboundRtp => "inbound-rtp"
  | .remoteInboundRtp => "remote-inbound-rtp"
  | .outboundRtp => "outbound-rtp"
  | .candidatePair => "candidate-pair"

/-- All categories. -/
def all : List Category := [.inboundRtp, .remoteInboundRtp, .outboundRtp, .candidatePair]

/-- The category of a type of report. -/
def ofType? (type : String) : Option Category := all.find? (·.type = type)

/-- The attributes with the count of bytes and its time. -/
def byteCounter : Category → Option (String × String)
  | .inboundRtp => some ("bytesReceived", "lastPacketReceivedTimestamp")
  | .outboundRtp => some ("bytesSent", "timestamp")
  | .candidatePair => some ("bytesReceived", "timestamp")
  | .remoteInboundRtp => none

/-- The attribute with the round-trip time. -/
def roundTripName : Category → String
  | .candidatePair => "currentRoundTripTime"
  | _ => "roundTripTime"

end Category

/-- A moment in milliseconds, or the present, which the clock on the wall decides. -/
inductive Moment
  | at (ms : Int64)
  | present
  deriving DecidableEq, Repr

/-- Readings of a video stream. -/
structure Video where
  frameRate : Reading Float
  freezeCount : Reading UInt64
  freezeDurationMs : Reading Float
  interFrameDelayMs : Reading Float

/-- What one report says in one poll. -/
structure Record where
  time : Moment
  reportId : String
  category : Category
  kind : Option String
  /-- In megabits per second; a missing value is an undefined rate. -/
  bitrate : Reading (Option Float)
  packetsLost : Reading Int64
  jitterMs : Reading Float
  roundTripMs : Reading Float
  video : Option Video

/-- The held readings of a video stream. -/
structure HeldVideo where
  frameRate : Held Float := {}
  freezeCount : Held UInt64 := {}
  freezeDurationMs : Held Float := {}
  interFrameDelayMs : Held Float := {}

/-- The held readings of one stream. -/
structure Stream where
  bitrate : Rate := {}
  packetsLost : Held Int64 := {}
  jitterMs : Held Float := {}
  roundTripMs : Held Float := {}
  video : HeldVideo := {}

/-- Seconds as milliseconds. -/
def secondsToMs (seconds : Option Float) : Option Float := seconds.map (· * 1000.0)

/-- A count that is not negative. -/
def count? (i : Int64) : Option UInt64 :=
  if 0 ≤ i then some (UInt64.ofNat i.toNatClampNeg) else none

/-- The readings of a video report. -/
def HeldVideo.observe (held : HeldVideo) (r : Report) : Video × HeldVideo :=
  let (frameRate, heldRate) := held.frameRate.observe (r.float? "framesPerSecond")
  let (freezeCount, heldCount) := held.freezeCount.observe ((r.int? "freezeCount").bind count?)
  let (freezeDuration, heldDuration) :=
    held.freezeDurationMs.observe (secondsToMs (r.float? "totalFreezesDuration"))
  let (interFrameDelay, heldDelay) :=
    held.interFrameDelayMs.observe (secondsToMs (r.float? "totalInterFrameDelay"))
  (⟨frameRate, freezeCount, freezeDuration, interFrameDelay⟩,
    ⟨heldRate, heldCount, heldDuration, heldDelay⟩)

/-- When a report was made: at its own time if it has one. -/
def Report.time (r : Report) (now : Moment) : Moment :=
  match r.float? "timestamp" with
  | some ms => .at (Decimal.cutToInt64 ms)
  | none => now

/-- The record of a report. -/
def Stream.observe (s : Stream) (category : Category) (r : Report) (now : Moment) :
    Record × Stream :=
  let (bytes, clock) := match category.byteCounter with
    | some (bytesName, clockName) => (r.float? bytesName, r.float? clockName)
    | none => (none, none)
  let (bitrate, heldBitrate) := s.bitrate.observe bytes clock
  let kind := r.text? "kind"
  let (video, heldVideo) :=
    if kind = some "video" then
      let (video, heldVideo) := s.video.observe r
      (some video, heldVideo)
    else (none, s.video)
  let (packetsLost, heldLost) := s.packetsLost.observe (r.int? "packetsLost")
  let (jitter, heldJitter) := s.jitterMs.observe (secondsToMs (r.float? "jitter"))
  let (roundTrip, heldRoundTrip) :=
    s.roundTripMs.observe (secondsToMs (r.float? category.roundTripName))
  (⟨r.time now, r.id, category, kind, bitrate, packetsLost, jitter, roundTrip, video⟩,
    ⟨heldBitrate, heldLost, heldJitter, heldRoundTrip, heldVideo⟩)

/-- The streams of one connection by report id. -/
structure Ledger where
  streams : List (String × Stream) := []

namespace Ledger

/-- The stream of a report id; a new one if there is none yet. -/
def stream (l : Ledger) (id : String) : Stream := (l.streams.lookup id).getD {}

/-- Replaces the stream of a report id. -/
def set (l : Ledger) (id : String) (s : Stream) : Ledger :=
  ⟨(id, s) :: l.streams.filter (·.1 ≠ id)⟩

/-- The number of streams. -/
def size (l : Ledger) : Nat := l.streams.length

/-- Takes in one report. Reports of other types leave no trace. -/
def add (l : Ledger) (r : Report) (now : Moment) : Option Record × Ledger :=
  match Category.ofType? r.type with
  | none => (none, l)
  | some category =>
    let (record, s) := (l.stream r.id).observe category r now
    (some record, l.set r.id s)

/-- Takes in the reports of one poll, in order. -/
def ingest (l : Ledger) (now : Moment) : List Report → List Record × Ledger
  | [] => ([], l)
  | r :: rest =>
    let (record, l) := l.add r now
    let (records, l) := l.ingest now rest
    (record.toList ++ records, l)

end Ledger

end PeerCall.Metrics
