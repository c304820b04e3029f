/-!
# Failures

What can go wrong on a link, on the message bus and in the agent, and how each failure reads.
-/

namespace PeerCall

/-- The number of a connection. Each call that is started takes the next one. -/
abbrev ConnId := Nat

/-- The name of a connection. -/
def connName (id : ConnId) : String := s!"conn-{id}"

/-- Where a call stands. -/
inductive Phase
  | idle
  | awaitingSignIn
  | connecting
  | haveLocalOffer
  | haveRemoteOffer
  | connected
  | closing
  | closed
  deriving DecidableEq, Repr, Inhabited

/-- The name of a phase. -/
def Phase.name : Phase → String
  | .idle => "Idle"
  | .awaitingSignIn => "AwaitingSignIn"
  | .connecting => "Connecting"
  | .haveLocalOffer => "HaveLocalOffer"
  | .haveRemoteOffer => "HaveRemoteOffer"
  | .connected => "Connected"
  | .closing => "Closing"
  | .closed => "Closed"

/-- A call is being set up or stands. -/
def Phase.isLive : Phase → Bool
  | .connecting | .haveLocalOffer | .haveRemoteOffer | .connected => true
  | _ => false

/-- What can go wrong on a link. -/
inductive LinkError
  | creation (reason : String)
  | description (reason : String)
  | candidate (reason : String)
  | stats (reason : String)
  | closed
  | connectionFailed
  | transport (reason : String)
  deriving DecidableEq, Repr, Inhabited

/-- How a link error reads. -/
def LinkError.message : LinkError → String
  | .creation reason => "failed to create connection: " ++ reason
  | .description reason => "session description failed: " ++ reason
  | .candidate reason => "ice candidate rejected: " ++ reason
  | .stats reason => "stats request failed: " ++ reason
  | .closed => "connection is closed"
  | .connectionFailed => "peer connection failed"
  | .transport reason => "webrtc: " ++ reason

/-- What can go wrong on the message bus. -/
inductive BusError
  | delivery (reason : String)
  | unknownMessage (start : String)
  deriving DecidableEq, Repr, Inhabited

/-- How a bus error reads. -/
def BusError.message : BusError → String
  | .delivery reason => "message delivery failed: " ++ reason
  | .unknownMessage start => "unknown signaling message: " ++ start

/-- What keeps the agent from handling an event. -/
inductive AgentError
  /-- The event has no place in this phase. -/
  | unexpected (phase : Phase) (what : String)
  /-- The event belongs to a connection that is not the live one. -/
  | stale (connection : ConnId)
  | fatal (error : LinkError)
  | undelivered (error : BusError)
  | pollFailed (error : LinkError)
  | queueClosed
  deriving DecidableEq, Repr, Inhabited

/-- How an agent error reads. -/
def AgentError.message : AgentError → String
  | .unexpected phase what => "unexpected " ++ what ++ " in state " ++ phase.name
  | .stale connection => "stale event for connection " ++ connName connection
  | .fatal error => "engine fatal error: " ++ error.message
  | .undelivered error => "signaling delivery failure: " ++ error.message
  | .pollFailed error => "stats cycle failed: " ++ error.message
  | .queueClosed => "conductor control stream is closed"

end PeerCall
