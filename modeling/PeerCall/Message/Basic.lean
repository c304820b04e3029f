/-!
# Messages between two peers

What two peers tell each other while they set up a connection: session descriptions, network
candidates, and the end of the call.
-/

namespace PeerCall

/-- Whether a description opens an exchange or closes it. -/
inductive SdpKind
  | offer
  | answer
  deriving DecidableEq, Repr, Inhabited

/-- A session description. -/
structure Description where
  kind : SdpKind
  sdp : String
  deriving DecidableEq, Repr, Inhabited

/-- A network candidate and the media section it belongs to. -/
structure Candidate where
  candidate : String
  sdpMid : Option String
  sdpMLineIndex : Option UInt16
  deriving DecidableEq, Repr, Inhabited

/-- A message between two peers. -/
inductive Message
  | description (description : Description)
  | candidate (candidate : Candidate)
  | bye
  deriving DecidableEq, Repr, Inhabited

/-- The four kinds of message. -/
inductive Message.Kind
  | offer
  | answer
  | candidate
  | bye
  deriving DecidableEq, Repr

namespace Message

/-- The kind of a message. -/
def kind : Message → Kind
  | .description ⟨.offer, _⟩ => .offer
  | .description ⟨.answer, _⟩ => .answer
  | .candidate _ => .candidate
  | .bye => .bye

/-- The text that ends a call. -/
def byeText : String := "BYE"

end Message

/-- The word for a kind of description. -/
def SdpKind.word : SdpKind → String
  | .offer => "offer"
  | .answer => "answer"

/-- The kind that a word names. -/
def SdpKind.ofWord? (word : String) : Option SdpKind :=
  if word = "offer" then some .offer else if word = "answer" then some .answer else none

end PeerCall
