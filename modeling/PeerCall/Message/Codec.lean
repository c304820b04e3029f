import PeerCall.Json.Draft
import PeerCall.Message.Basic
import PeerCall.Text.Blank

/-!
# The text of a message

A description and a candidate travel as JSON records, the end of a call as a bare word. Reading
tries the shape of a description first and that of a candidate second, and ignores members that
it does not know.
-/

namespace PeerCall

open Json

/-- The record of a description. -/
def Description.toTree (d : Description) : Tree :=
  .record [("type", .text d.kind.word), ("sdp", .text d.sdp)]

/-- The record of a candidate. -/
def Candidate.toTree (c : Candidate) : Tree :=
  .record [("candidate", .text c.candidate), ("sdpMid", .textOrNull c.sdpMid),
    ("sdpMLineIndex", match c.sdpMLineIndex with
      | none => .null
      | some n => .natural n.toNat)]

/-- All values that a record has under a key, in order. -/
def valuesOf (key : String) (members : List (String × Tree)) : List Tree :=
  members.filterMap fun m => if m.1 = key then some m.2 else none

/-- The kind of a description: its word, or a record with its word as only key and null. -/
def SdpKind.ofTree? : Tree → Option SdpKind
  | .text word => SdpKind.ofWord? word
  | .record [(word, .null)] => SdpKind.ofWord? word
  | _ => none

/-- A description has one `type` and one `sdp`. -/
def Description.ofMembers? (members : List (String × Tree)) : Option Description :=
  match valuesOf "type" members, valuesOf "sdp" members with
  | [kind], [.text sdp] => (SdpKind.ofTree? kind).map (⟨·, sdp⟩)
  | _, _ => none

/-- An optional text, which may be left out: `none` if it is something else. -/
def optionalText? : List Tree → Option (Option String)
  | [] => some none
  | [.null] => some none
  | [.text s] => some (some s)
  | _ => none

/-- An optional number of a media section, which may be left out. It is written as a whole number
without a sign. -/
def optionalIndex? : List Tree → Option (Option UInt16)
  | [] => some none
  | [.null] => some none
  | [.number n] =>
    match n.number with
    | .unsigned value => if value.toNat < 65536 then some (some (.ofNat value.toNat)) else none
    | _ => none
  | _ => none

/-- A candidate has one `candidate`, and at most one `sdpMid` and `sdpMLineIndex`. -/
def Candidate.ofMembers? (members : List (String × Tree)) : Option Candidate :=
  match valuesOf "candidate" members, optionalText? (valuesOf "sdpMid" members),
      optionalIndex? (valuesOf "sdpMLineIndex" members) with
  | [.text candidate], some sdpMid, some sdpMLineIndex => some ⟨candidate, sdpMid, sdpMLineIndex⟩
  | _, _, _ => none

namespace Message

/-- Why a text is no message. -/
inductive DecodeError
  /-- It is neither a record nor the word for the end; its first characters. -/
  | unknown (start : String)
  | notJson (fault : Fault)
  /-- It is a record of neither shape. -/
  | noShape
  deriving DecidableEq, Repr

/-- How a record of neither shape is reported. -/
def noShapeText : String :=
  "malformed signaling message: data did not match any variant of untagged enum WireMessage"

/-- The text of a message. -/
def encode : Message → String
  | .description d => String.ofList d.toTree.write
  | .candidate c => String.ofList c.toTree.write
  | .bye => byeText

/-- The message of a value. -/
def ofTree? : Tree → Option Message
  | .record members =>
    match Description.ofMembers? members with
    | some d => some (.description d)
    | none => (Candidate.ofMembers? members).map .candidate
  | _ => none

/-- How much of an unknown text is kept. -/
def keptStart : Nat := 32

/-- The message of a text. Blanks around it do not count, and a record of neither shape is
reported before anything that follows it. -/
def decode (text : String) : Except DecodeError Message :=
  let cs := Text.trim text.toList
  if cs = byeText.toList then .ok .bye
  else if cs.head? ≠ some '\x7b' then .error (.unknown (String.ofList (cs.take keptStart)))
  else
    let (draft, trailing) := Draft.ofChars cs
    match draft.tree Draft.maxDepth with
    | .error fault => .error (.notJson fault)
    | .ok tree =>
      match ofTree? tree with
      | none => .error .noShape
      | some message => if trailing then .error (.notJson .malformed) else .ok message

end Message

end PeerCall
