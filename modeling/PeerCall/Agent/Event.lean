import PeerCall.Failure
import PeerCall.Message.Codec
import PeerCall.Metrics.Record

/-!
# Events and effects

Everything that reaches the agent is an event in one queue: what the user asks for, what the
message bus and the link report, what came of the operations on the link, and new records. What
the agent does in return is a list of effects.
-/

namespace PeerCall

/-- What the user can ask for. -/
inductive Command
  | signIn
  | connect (peer : String)
  | disconnect
  | close
  | shutdown
  deriving DecidableEq, Repr

/-- What the message bus reports. -/
inductive BusNews
  | signedIn
  | signInFailed (reason : String)
  | peerConnected (peer : String)
  | peerDisconnected (peer : String)
  | message (peer text : String)
  /-- The last message has been passed on, so that more can be sent. -/
  | messageSent
  deriving DecidableEq, Repr

/-- How a link sees its connection. -/
inductive LinkState
  | new
  | connecting
  | connected
  | disconnected
  | failed
  | closed
  deriving DecidableEq, Repr

/-- What a media track carries. -/
inductive TrackKind
  | audio
  | video
  deriving DecidableEq, Repr

/-- A media track of the other peer. -/
structure Track where
  id : String
  kind : TrackKind
  deriving DecidableEq, Repr

/-- What a link reports. -/
inductive LinkNews
  | candidate (candidate : Candidate)
  | state (state : LinkState)
  | trackAdded (track : Track)
  | trackRemoved (track : Track)
  deriving DecidableEq, Repr

/-- The kinds of operation on a link. -/
inductive Operation.Kind
  | createOffer
  | createAnswer
  | setLocal
  | setRemote
  | addCandidate
  deriving DecidableEq, Repr

/-- An operation on a link. -/
inductive Operation
  | createOffer
  | createAnswer
  | setLocal (description : Description)
  | setRemote (description : Description)
  | addCandidate (candidate : Candidate)
  deriving DecidableEq, Repr

namespace Operation

/-- The kind of an operation. -/
def kind : Operation → Kind
  | .createOffer => .createOffer
  | .createAnswer => .createAnswer
  | .setLocal _ => .setLocal
  | .setRemote _ => .setRemote
  | .addCandidate _ => .addCandidate

/-- The name of a kind of operation. -/
def Kind.name : Kind → String
  | .createOffer => "create_offer"
  | .createAnswer => "create_answer"
  | .setLocal => "set_local_description"
  | .setRemote => "set_remote_description"
  | .addCandidate => "add_ice_candidate"

end Operation

/-- What came of an operation. A candidate that is not accepted is no failure. -/
inductive Outcome
  | localReady (description : Description)
  | localApplied (kind : SdpKind)
  | remoteApplied (kind : SdpKind)
  | candidateApplied
  | candidateRejected (error : LinkError)
  | failed (operation : Operation.Kind) (error : LinkError)
  deriving DecidableEq, Repr

/-- Anything that reaches the agent. -/
inductive Event
  | command (command : Command)
  | bus (news : BusNews)
  | link (connection : ConnId) (news : LinkNews)
  | outcome (connection : ConnId) (outcome : Outcome)
  | records (connection : ConnId) (records : List Metrics.Record)

/-- Whether an event can come from outside the links: a command, news of the bus or what a link
reports by its callback. -/
def Event.isExternal : Event → Bool
  | .command _ | .bus _ | .link _ _ => true
  | .outcome _ _ | .records _ _ => false

/-- What the user is told. -/
inductive Notice
  | phase (phase : Phase)
  | record (record : Metrics.Record)
  | trackAdded (track : Track)
  | trackRemoved (track : Track)
  | signInFailed (reason : String)
  | callFailed (reason : String)

/-- A warning in the log. -/
inductive Warning
  | discarded (error : AgentError)
  | queueHeld (error : BusError)
  | unhandled (error : AgentError)
  | fatal (error : LinkError)
  | signInFailed (reason : String)
  | messageIgnored (error : Message.DecodeError)
  | connectionInterrupted
  | candidateRejected (error : LinkError)
  | operationFailed (operation : Operation.Kind)
  | noRelay
  deriving DecidableEq, Repr

/-- How an unreadable message reads, without the place where it breaks. -/
def Message.DecodeError.headline : Message.DecodeError → String
  | .unknown start => (BusError.unknownMessage start).message
  | .notJson _ => "malformed signaling message"
  | .noShape => "malformed signaling message"

/-- How a warning reads. -/
def Warning.text : Warning → String
  | .discarded error => "Discarding: " ++ error.message
  | .queueHeld error => "signaling delivery failed, holding queue: " ++ error.message
  | .unhandled error => error.message
  | .fatal error => "Engine fatal error: " ++ error.message
  | .signInFailed reason => "Sign-in failed: " ++ reason
  | .messageIgnored error => "Ignoring signaling message: " ++ error.headline
  | .connectionInterrupted => "peer connection interrupted"
  | .candidateRejected error => "Remote candidate rejected: " ++ error.message
  | .operationFailed operation => "engine operation failed [op=" ++ operation.name ++ "]"
  | .noRelay => "No TURN relay candidates found! Connection through NAT may fail."

/-- Anything the agent does. An attempt comes with the error that it met, if any. -/
inductive Effect
  | send (peer text : String) (error : Option BusError)
  | signIn (error : Option BusError)
  | signOut
  | create (connection : ConnId) (error : Option LinkError)
  | submit (connection : ConnId) (operation : Operation)
  | startPolls (connection : ConnId)
  | stopPolls (connection : ConnId)
  /-- Drops the operations that are not done and closes the link. -/
  | close (connection : ConnId)
  | notify (notice : Notice)
  | warn (warning : Warning)

end PeerCall
