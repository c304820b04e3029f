import PeerCall.Decimal.Layout
import PeerCall.Metrics.Record

/-!
# The text of a poll

The lines that a poll writes to the log: a header, then a block for each record. Durations are
given in seconds.
-/

namespace PeerCall.Metrics

/-- Numbers in a poll have all their places, and whole ones no point. -/
def pollNumber : Decimal.Layout := ⟨.up, none, ""⟩

/-- The text of a moment. -/
def Moment.text : Moment → String
  | .at ms => toString ms.toInt
  | .present => "now"

namespace Record

/-- The bit rate with its unit. -/
def rateText (r : Record) : String :=
  (match r.bitrate.value with
    | some rate => pollNumber.write rate
    | none => "NAN") ++ " Mbps"

/-- Milliseconds as a text in seconds. -/
def inSeconds (ms : Reading Float) : String := pollNumber.write (ms.value / 1000.0)

/-- The lines of a video stream. -/
def videoLines (v : Video) : List String :=
  ["********LOGGING INBOUND VIDEO RTP STATS********",
    "Frames per Second: " ++ pollNumber.write v.frameRate.value,
    "Freeze Rate: " ++ toString v.freezeCount.value.toNat,
    "Total Freeze Duration: " ++ inSeconds v.freezeDurationMs,
    "Total Inter Frame Delay: " ++ inSeconds v.interFrameDelayMs]

/-- The lines of a record. Only inbound streams show their video. -/
def lines (r : Record) : List String :=
  let lost := toString r.packetsLost.value.toInt
  match r.category with
  | .inboundRtp =>
    ["********LOGGING INBOUND TRANSPORT RTP STATS********",
      "Receiving Rate: " ++ r.rateText,
      "Packets Lost: " ++ lost,
      "Jitter: " ++ inSeconds r.jitterMs] ++
      (match r.video with
        | some v => videoLines v
        | none => [])
  | .remoteInboundRtp =>
    ["********LOGGING REMOTE INBOUND RTP STATS********",
      "Remote Packets Lost: " ++ lost,
      "Remote Jitter: " ++ inSeconds r.jitterMs,
      "Round Trip Time: " ++ inSeconds r.roundTripMs]
  | .outboundRtp =>
    ["********LOGGING OUTBOUND RTP STATS********",
      "Sending Rate: " ++ r.rateText]
  | .candidatePair =>
    ["********LOGGING ICE CANDIDATE PAIR STATS********",
      "Transport Rate: " ++ r.rateText,
      "Current Round Trip Time: " ++ inSeconds r.roundTripMs]

end Record

/-- The lines of a poll. -/
def pollLines (time : Moment) (records : List Record) : List String :=
  ("PeerConnection Stats Report received, timestamp: " ++ time.text) ::
    records.flatMap Record.lines

end PeerCall.Metrics
