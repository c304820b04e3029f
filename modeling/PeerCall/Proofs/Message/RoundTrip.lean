import PeerCall.Message.Codec
import PeerCall.Proofs.Json.RoundTrip

/-!
# The text of a message and the message

Every message can be read from its text. The record of a description is never taken for that of a
candidate, nor the other way round, since they have no key in common.
-/

namespace PeerCall

open Json

/-- The record of a description fits, and is read as that description. -/
theorem Description.ofMembers?_toTree (d : Description) :
    d.toTree.Fits Draft.maxDepth ∧ Message.ofTree? d.toTree = some (.description d) := by
  have hkind : SdpKind.ofWord? d.kind.word = some d.kind := by
    cases d.kind <;> rfl
  refine ⟨⟨by decide, trivial, trivial, trivial⟩, ?_⟩
  simp [toTree, Message.ofTree?, ofMembers?, valuesOf, SdpKind.ofTree?, hkind]

/-- A number of a media section fits, and is read as that number. -/
theorem optionalIndex?_natural (n : UInt16) :
    (Numeral.ofNat n.toNat).inRange = true ∧
      optionalIndex? [.natural n.toNat] = some (some n) := by
  have hlt : n.toNat < 65536 := n.toNat_lt
  have hsize : n.toNat < UInt64.size := Nat.lt_trans hlt (by decide)
  exact ⟨Numeral.inRange_ofNat hsize,
    by simp [optionalIndex?, Tree.natural, Numeral.number_ofNat hsize, hlt]⟩

/-- The record of a candidate fits, and is read as that candidate. -/
theorem Candidate.ofMembers?_toTree (c : Candidate) :
    c.toTree.Fits Draft.maxDepth ∧ Message.ofTree? c.toTree = some (.candidate c) := by
  obtain ⟨candidate, sdpMid, sdpMLineIndex⟩ := c
  have hmid : (Tree.textOrNull sdpMid).Fits 126 ∧
      optionalText? [.textOrNull sdpMid] = some sdpMid := by
    cases sdpMid <;> exact ⟨trivial, rfl⟩
  have hread {index : Tree} (hfits : index.Fits 126)
      (hindex : optionalIndex? [index] = some sdpMLineIndex) :
      let tree := Tree.record [("candidate", .text candidate), ("sdpMid", .textOrNull sdpMid),
        ("sdpMLineIndex", index)]
      tree.Fits Draft.maxDepth ∧
        Message.ofTree? tree = some (.candidate ⟨candidate, sdpMid, sdpMLineIndex⟩) := by
    refine ⟨⟨by decide, trivial, hmid.1, hfits, trivial⟩, ?_⟩
    simp [Message.ofTree?, Description.ofMembers?, ofMembers?, valuesOf, hmid.2, hindex]
  cases sdpMLineIndex with
  | none => exact hread trivial rfl
  | some n =>
    obtain ⟨hrange, hindex⟩ := optionalIndex?_natural n
    exact hread ⟨⟨_, rfl⟩, hrange⟩ hindex

namespace Message

/-- The text of a record that is a message is read as that message. -/
theorem decode_write {members : List (String × Tree)} {message : Message}
    (hfits : (Tree.record members).Fits Draft.maxDepth)
    (hmessage : ofTree? (.record members) = some message) :
    decode (String.ofList (Tree.record members).write) = .ok message := by
  have hwrite : (Tree.record members).write =
      '\x7b' :: (Tree.writeMembers members ++ ['\x7d']) := by
    rw [Tree.write, List.cons_append]
  have htrim : Text.trim (Tree.record members).write = (Tree.record members).write := by
    refine Text.trim_eq_self ?_ ?_
    · rw [hwrite]
      rintro _ ⟨⟩
      decide
    · rw [hwrite, ← List.cons_append, List.getLast?_concat]
      rintro _ ⟨⟩
      decide
  have hbye : (Tree.record members).write ≠ byeText.toList := by
    rw [hwrite]
    simp [byeText]
  have hbrace : (Tree.record members).write.head? = some '\x7b' := by
    rw [hwrite, List.head?_cons]
  simp only [decode, String.toList_ofList, htrim, if_neg hbye, hbrace, ne_eq, not_true_eq_false,
    if_false, hfits.spells_write.ofChars, Tree.tree_draft hfits.bounded, hmessage,
    Bool.false_eq_true]

/-- Every message is read from its own text. -/
theorem decode_encode (message : Message) : decode message.encode = .ok message := by
  cases message with
  | description d => exact decode_write d.ofMembers?_toTree.1 d.ofMembers?_toTree.2
  | candidate c => exact decode_write c.ofMembers?_toTree.1 c.ofMembers?_toTree.2
  | bye => rfl

/-- No two messages have the same text. -/
theorem encode_injective : Function.Injective encode := by
  intro first second h
  have hdecode := congrArg decode h
  rw [decode_encode, decode_encode] at hdecode
  exact Except.ok.inj hdecode

/-- Blanks around a text do not change what is read from it. -/
theorem decode_surrounded {front back : String} (text : String)
    (hfront : ∀ c ∈ front.toList, Text.isBlank c = true)
    (hback : ∀ c ∈ back.toList, Text.isBlank c = true) :
    decode (front ++ text ++ back) = decode text := by
  simp only [decode, String.toList_append, Text.trim_surrounded text.toList hfront hback]

/-- Every message is read from its text, also if blanks stand around it, and no two messages have
the same text. -/
theorem encode_faithful :
    (∀ message : Message, decode message.encode = .ok message) ∧
      (∀ (message : Message) (front back : String),
        (∀ c ∈ front.toList, Text.isBlank c = true) →
          (∀ c ∈ back.toList, Text.isBlank c = true) →
            decode (front ++ message.encode ++ back) = .ok message) ∧
      Function.Injective encode := by
  refine ⟨decode_encode, fun message front back hfront hback => ?_, encode_injective⟩
  rw [decode_surrounded _ hfront hback, decode_encode]

/-- A candidate whose texts look like other messages, with blanks of several kinds around it. -/
theorem decode_misleading_candidate :
    let message : Message :=
      .candidate ⟨"\x7b\"type\":\"offer\",\"sdp\":\"\\\u0000\x7d", some "BYE", some 65535⟩
    (∀ c ∈ "\n\u2003".toList, Text.isBlank c = true) ∧
      (∀ c ∈ "\u3000\r\n".toList, Text.isBlank c = true) ∧
        decode ("\n\u2003" ++ message.encode ++ "\u3000\r\n") = .ok message := by
  have hfront : ∀ c ∈ "\n\u2003".toList, Text.isBlank c = true := by simp [Text.isBlank]
  have hback : ∀ c ∈ "\u3000\r\n".toList, Text.isBlank c = true := by simp [Text.isBlank]
  exact ⟨hfront, hback, encode_faithful.2.1 _ _ _ hfront hback⟩

end Message

end PeerCall
