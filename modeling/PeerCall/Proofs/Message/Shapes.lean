import Mathlib
import PeerCall.Message.Codec
import PeerCall.Proofs.Json.RoundTrip

/-!
# Which texts are messages

A record is a description or a candidate by what it has under five keys. Neither the order of its
members, nor members under other keys, nor the way in which the record is spelled make any
difference.
-/

namespace PeerCall

open Json

namespace Text

/-- A text is what remains of it with the blanks that were taken away. -/
theorem exists_trim (cs : List Char) : ∃ front back, cs = front ++ trim cs ++ back ∧
    (∀ c ∈ front, isBlank c = true) ∧ ∀ c ∈ back, isBlank c = true := by
  let rest := cs.dropWhile isBlank
  refine ⟨cs.takeWhile isBlank, (rest.reverse.takeWhile isBlank).reverse, ?_,
    fun _ => List.mem_takeWhile_imp,
    fun _ hc => List.mem_takeWhile_imp (List.mem_reverse.mp hc)⟩
  have hrest : rest = trim cs ++ (rest.reverse.takeWhile isBlank).reverse := by
    rw [trim, ← List.reverse_append, List.takeWhile_append_dropWhile, List.reverse_reverse]
  rw [List.append_assoc, ← hrest, List.takeWhile_append_dropWhile]

/-- A text that is trimmed has no blanks to lose. -/
theorem trim_trim (cs : List Char) : trim (trim cs) = trim cs := by
  obtain ⟨front, back, hcs, hfront, hback⟩ := exists_trim cs
  have h := trim_surrounded (trim cs) hfront hback
  rw [← hcs] at h
  exact h.symm

end Text

/-! ## Shapes -/

/-- The keys that mean something in a message. -/
def knownKeys : List String := ["type", "sdp", "candidate", "sdpMid", "sdpMLineIndex"]

/-- A record has one member under a key. -/
def Once (members : List (String × Tree)) (key : String) (value : Tree) : Prop :=
  members.filter (·.1 = key) = [(key, value)]

/-- A record has no member under a key. -/
def Lacks (members : List (String × Tree)) (key : String) : Prop :=
  members.filter (·.1 = key) = []

/-- The two ways to name a kind: its word, or a record with its word as only key and null. -/
inductive SdpKind.Named (kind : SdpKind) : Tree → Prop
  | word : Named kind (.text kind.word)
  | key : Named kind (.record [(kind.word, .null)])

/-- A record that is a description. -/
structure Description.Stands (d : Description) (members : List (String × Tree)) : Prop where
  kind : ∃ value, Once members "type" value ∧ d.kind.Named value
  sdp : Once members "sdp" (.text d.sdp)

/-- A text that a record may lack. -/
inductive GivesText (members : List (String × Tree)) (key : String) : Option String → Prop
  | lacking : Lacks members key → GivesText members key none
  | null : Once members key .null → GivesText members key none
  | text {s : String} : Once members key (.text s) → GivesText members key (some s)

/-- A number of 16 bits that a record may lack. It has no sign, no point and no exponent. -/
inductive GivesIndex (members : List (String × Tree)) (key : String) : Option UInt16 → Prop
  | lacking : Lacks members key → GivesIndex members key none
  | null : Once members key .null → GivesIndex members key none
  | number {n : Numeral} : Once members key (.number n) → n.isWhole = true → n.negative = false →
    n.digits ≤ 65535 → GivesIndex members key (some (.ofNat n.digits))

/-- A record that is a candidate, unless it is a description. -/
structure Candidate.Stands (c : Candidate) (members : List (String × Tree)) : Prop where
  candidate : Once members "candidate" (.text c.candidate)
  sdpMid : GivesText members "sdpMid" c.sdpMid
  sdpMLineIndex : GivesIndex members "sdpMLineIndex" c.sdpMLineIndex

/-! ## The shapes are what is looked for -/

/-- The values under a key are those of the members with the key. -/
theorem valuesOf_eq (key : String) (members : List (String × Tree)) :
    valuesOf key members = (members.filter (·.1 = key)).map (·.2) := by
  induction members with
  | nil => rfl
  | cons m members ih =>
    by_cases hm : m.1 = key <;> simp_all [valuesOf]

/-- A key stands once if there is one value under it. -/
theorem once_iff {members : List (String × Tree)} {key : String} {value : Tree} :
    Once members key value ↔ valuesOf key members = [value] := by
  rw [valuesOf_eq, List.map_eq_singleton_iff, Once]
  constructor
  · exact fun h => ⟨_, h, rfl⟩
  · rintro ⟨⟨otherKey, otherValue⟩, hfilter, rfl⟩
    have hmem : (otherKey, otherValue) ∈ members.filter (·.1 = key) := by simp [hfilter]
    obtain rfl : otherKey = key := by simpa using (List.mem_filter.mp hmem).2
    exact hfilter

/-- A key is lacking if there is no value under it. -/
theorem lacks_iff {members : List (String × Tree)} {key : String} :
    Lacks members key ↔ valuesOf key members = [] := by
  rw [valuesOf_eq, List.map_eq_nil_iff, Lacks]

/-- A kind is read from its own word alone. -/
theorem SdpKind.ofWord?_eq_some_iff {word : String} {kind : SdpKind} :
    SdpKind.ofWord? word = some kind ↔ word = kind.word := by
  unfold SdpKind.ofWord?
  split_ifs with hoffer hanswer <;> cases kind <;> simp_all [SdpKind.word]

/-- A kind is read from the values that name it. -/
theorem SdpKind.ofTree?_eq_some_iff {value : Tree} {kind : SdpKind} :
    SdpKind.ofTree? value = some kind ↔ kind.Named value := by
  constructor
  · intro h
    unfold SdpKind.ofTree? at h
    split at h
    · rw [SdpKind.ofWord?_eq_some_iff.mp h]
      exact .word
    · rw [SdpKind.ofWord?_eq_some_iff.mp h]
      exact .key
    · cases h
  · rintro (_ | _) <;> exact SdpKind.ofWord?_eq_some_iff.mpr rfl

/-- A description is read from the members that it stands in. -/
theorem Description.ofMembers?_eq_some_iff {members : List (String × Tree)} {d : Description} :
    Description.ofMembers? members = some d ↔ d.Stands members := by
  constructor
  · intro h
    unfold Description.ofMembers? at h
    split at h
    · next value sdp hvalue hsdp =>
      obtain ⟨kind, hkind, rfl⟩ := Option.map_eq_some_iff.mp h
      exact ⟨⟨value, once_iff.mpr hvalue, SdpKind.ofTree?_eq_some_iff.mp hkind⟩,
        once_iff.mpr hsdp⟩
    · cases h
  · rintro ⟨⟨value, hvalue, hkind⟩, hsdp⟩
    rw [Description.ofMembers?, once_iff.mp hvalue, once_iff.mp hsdp]
    exact Option.map_eq_some_iff.mpr ⟨_, SdpKind.ofTree?_eq_some_iff.mpr hkind, rfl⟩

/-- A text that may be lacking is read from the members that give it. -/
theorem optionalText?_eq_some_iff {members : List (String × Tree)} {key : String}
    {s : Option String} :
    optionalText? (valuesOf key members) = some s ↔ GivesText members key s := by
  constructor
  · intro h
    unfold optionalText? at h
    split at h
    · next hvalues =>
      cases h
      exact .lacking (lacks_iff.mpr hvalues)
    · next hvalues =>
      cases h
      exact .null (once_iff.mpr hvalues)
    · next hvalues =>
      cases h
      exact .text (once_iff.mpr hvalues)
    · cases h
  · rintro (h | h | h)
    · rw [lacks_iff.mp h]
      rfl
    · rw [once_iff.mp h]
      rfl
    · rw [once_iff.mp h]
      rfl

/-- The whole numbers without a sign. -/
theorem Json.Numeral.number_eq_unsigned_iff {n : Numeral} {value : UInt64} :
    n.number = .unsigned value ↔
      n.isWhole = true ∧ n.negative = false ∧ n.digits = value.toNat := by
  have hsize : UInt64.size = 2 ^ 64 := rfl
  have hlt : value.toNat < 2 ^ 64 := value.toNat_lt
  unfold Numeral.number
  split_ifs with hunsigned
  · obtain ⟨hwhole, hsign, hdigits⟩ := hunsigned
    rw [Number.unsigned.injEq, ← UInt64.toNat_inj, UInt64.toNat_ofNat_of_lt' hdigits]
    simp [hwhole, hsign]
  all_goals
    refine ⟨nofun, fun ⟨hwhole, hsign, hdigits⟩ => absurd ⟨hwhole, by simp [hsign], ?_⟩ hunsigned⟩
    omega

/-- An index that may be lacking is read from the members that give it. -/
theorem optionalIndex?_eq_some_iff {members : List (String × Tree)} {key : String}
    {index : Option UInt16} :
    optionalIndex? (valuesOf key members) = some index ↔ GivesIndex members key index := by
  constructor
  · intro h
    unfold optionalIndex? at h
    split at h
    · next hvalues =>
      cases h
      exact .lacking (lacks_iff.mpr hvalues)
    · next hvalues =>
      cases h
      exact .null (once_iff.mpr hvalues)
    · next n hvalues =>
      split at h
      · next value hnumber =>
        obtain ⟨hwhole, hsign, hdigits⟩ := Numeral.number_eq_unsigned_iff.mp hnumber
        split at h
        · next hlt =>
          cases h
          rw [← hdigits] at hlt ⊢
          exact .number (once_iff.mpr hvalues) hwhole hsign (by omega)
        · cases h
      · cases h
    · cases h
  · rintro (h | h | ⟨h, hwhole, hsign, hle⟩)
    · rw [lacks_iff.mp h]
      rfl
    · rw [once_iff.mp h]
      rfl
    · next n =>
      have hvalue : (UInt64.ofNat n.digits).toNat = n.digits :=
        UInt64.toNat_ofNat_of_lt' (Nat.lt_of_le_of_lt hle (by decide))
      have hnumber : n.number = .unsigned (.ofNat n.digits) :=
        Numeral.number_eq_unsigned_iff.mpr ⟨hwhole, hsign, hvalue.symm⟩
      rw [once_iff.mp h, optionalIndex?, hnumber]
      simp only [hvalue, if_pos (Nat.lt_succ_of_le hle)]

/-- A candidate is read from the members that it stands in. -/
theorem Candidate.ofMembers?_eq_some_iff {members : List (String × Tree)} {c : Candidate} :
    Candidate.ofMembers? members = some c ↔ c.Stands members := by
  constructor
  · intro h
    unfold Candidate.ofMembers? at h
    split at h
    · next candidate sdpMid sdpMLineIndex hcandidate hmid hindex =>
      cases h
      exact ⟨once_iff.mpr hcandidate, optionalText?_eq_some_iff.mp hmid,
        optionalIndex?_eq_some_iff.mp hindex⟩
    · cases h
  · rintro ⟨hcandidate, hmid, hindex⟩
    rw [Candidate.ofMembers?, once_iff.mp hcandidate, optionalText?_eq_some_iff.mpr hmid,
      optionalIndex?_eq_some_iff.mpr hindex]

namespace Message

/-- The message that a record stands for, if it stands for one. -/
inductive Stands (members : List (String × Tree)) : Message → Prop
  | description {d : Description} : d.Stands members → Stands members (.description d)
  | candidate {c : Candidate} : (∀ d : Description, ¬d.Stands members) → c.Stands members →
    Stands members (.candidate c)

/-- A message is read from the members that it stands in. -/
theorem ofTree?_eq_some_iff {members : List (String × Tree)} {message : Message} :
    ofTree? (.record members) = some message ↔ Stands members message := by
  rw [ofTree?]
  constructor
  · intro h
    split at h
    · next d hd =>
      cases h
      exact .description (Description.ofMembers?_eq_some_iff.mp hd)
    · next hnone =>
      obtain ⟨c, hc, rfl⟩ := Option.map_eq_some_iff.mp h
      refine .candidate (fun d hd => ?_) (Candidate.ofMembers?_eq_some_iff.mp hc)
      rw [Description.ofMembers?_eq_some_iff.mpr hd] at hnone
      cases hnone
  · rintro (hd | ⟨hnone, hc⟩)
    · rw [Description.ofMembers?_eq_some_iff.mpr hd]
    · have hdescription : Description.ofMembers? members = none :=
        Option.eq_none_iff_forall_ne_some.mpr fun d hd =>
          hnone d (Description.ofMembers?_eq_some_iff.mp hd)
      rw [hdescription, Candidate.ofMembers?_eq_some_iff.mpr hc]
      rfl

end Message

/-! ## The order of the members -/

/-- Two records that agree about a key, up to the order of their members. -/
def AgreeOn (key : String) (members others : List (String × Tree)) : Prop :=
  (members.filter (·.1 = key)).Perm (others.filter (·.1 = key))

/-- Neither the order nor members under other keys make a difference. -/
theorem agreeOn_of_perm {key : String} {members others extras : List (String × Tree)}
    (hperm : others.Perm (members ++ extras)) (hextras : ∀ m ∈ extras, m.1 ≠ key) :
    AgreeOn key members others := by
  have hnone : extras.filter (·.1 = key) = [] := by simpa using hextras
  have hfilter := hperm.filter (·.1 = key)
  rw [List.filter_append, hnone, List.append_nil] at hfilter
  exact hfilter.symm

section Agree

variable {key : String} {members others : List (String × Tree)}

/-- What stands once in members stands once in others that agree. -/
theorem AgreeOn.once (h : AgreeOn key members others) {value : Tree}
    (honce : Once members key value) : Once others key value := by
  rw [AgreeOn, honce] at h
  exact List.perm_singleton.mp h.symm

/-- What is lacking in members is lacking in others that agree. -/
theorem AgreeOn.lacks (h : AgreeOn key members others) (hlacks : Lacks members key) :
    Lacks others key := by
  rw [AgreeOn, hlacks] at h
  exact List.perm_nil.mp h.symm

/-- Members that agree give the same text. -/
theorem AgreeOn.givesText (h : AgreeOn key members others) {s : Option String} :
    GivesText members key s → GivesText others key s
  | .lacking hlacks => .lacking (h.lacks hlacks)
  | .null honce => .null (h.once honce)
  | .text honce => .text (h.once honce)

/-- Members that agree give the same index. -/
theorem AgreeOn.givesIndex (h : AgreeOn key members others) {index : Option UInt16} :
    GivesIndex members key index → GivesIndex others key index
  | .lacking hlacks => .lacking (h.lacks hlacks)
  | .null honce => .null (h.once honce)
  | .number honce hwhole hsign hle => .number (h.once honce) hwhole hsign hle

/-- A description stands in all members that agree on the known keys. -/
theorem Description.Stands.of_agree (h : ∀ key ∈ knownKeys, AgreeOn key members others)
    {d : Description} (hd : d.Stands members) : d.Stands others := by
  obtain ⟨⟨value, hvalue, hkind⟩, hsdp⟩ := hd
  exact ⟨⟨value, (h "type" (by decide)).once hvalue, hkind⟩, (h "sdp" (by decide)).once hsdp⟩

/-- A candidate stands in all members that agree on the known keys. -/
theorem Candidate.Stands.of_agree (h : ∀ key ∈ knownKeys, AgreeOn key members others)
    {c : Candidate} (hc : c.Stands members) : c.Stands others :=
  ⟨(h "candidate" (by decide)).once hc.candidate, (h "sdpMid" (by decide)).givesText hc.sdpMid,
    (h "sdpMLineIndex" (by decide)).givesIndex hc.sdpMLineIndex⟩

/-- Records that agree about the known keys stand for the same message. -/
theorem Message.Stands.of_agree (h : ∀ key ∈ knownKeys, AgreeOn key members others)
    {message : Message} : Stands members message → Stands others message
  | .description hd => .description (hd.of_agree h)
  | .candidate hnone hc =>
    .candidate (fun d hd => hnone d (hd.of_agree fun key hkey => (h key hkey).symm))
      (hc.of_agree h)

end Agree

/-! ## The text around a record -/

namespace Json

/-- A text that spells lexemes can be divided where the lexemes are. -/
theorem Laid.exists_append {second : List Lexeme} : ∀ {first : List Lexeme} {cs : List Char},
    Laid (first ++ second) cs → ∃ front back, cs = front ++ back ∧ Laid first front ∧
      Laid second back
  | [], cs, h => ⟨[], cs, rfl, .empty, h⟩
  | _ :: _, _, @Laid.cons _ _ layout spelled _ hlayout hlexeme hrest => by
    obtain ⟨front, back, rfl, hfront, hback⟩ := hrest.exists_append
    exact ⟨layout ++ (spelled ++ front), back, by simp, .cons hlayout hlexeme hfront, hback⟩

/-- A left brace is spelled in one way. -/
theorem Lexeme.eq_of_spelled_leftBrace {cs : List Char} :
    Lexeme.leftBrace.Spelled cs → cs = ['\x7b']
  | .mark (c := c) hmark => by
    unfold Lexeme.mark? at hmark
    split_ifs at hmark with hc <;> simp_all

/-- A right brace is spelled in one way. -/
theorem Lexeme.eq_of_spelled_rightBrace {cs : List Char} :
    Lexeme.rightBrace.Spelled cs → cs = ['\x7d']
  | .mark (c := c) hmark => by
    unfold Lexeme.mark? at hmark
    split_ifs at hmark with hleft hc <;> simp_all

/-- The characters of layout are blank. -/
theorem isBlank_of_isLayout {c : Char} (hc : Lexeme.isLayout c = true) :
    Text.isBlank c = true := by
  simp only [Lexeme.isLayout, Bool.or_eq_true, beq_iff_eq] at hc
  rcases hc with ((rfl | rfl) | rfl) | rfl <;> rfl

/-- A text that spells a record begins and ends with a brace, apart from layout. -/
theorem Tree.Spells.trim_record {members : List (String × Tree)} {cs : List Char}
    (h : (Tree.record members).Spells cs) :
    (∃ inner, Text.trim cs = '\x7b' :: inner) ∧ (Tree.record members).Spells (Text.trim cs) := by
  have hlaid : Laid ((.leftBrace :: Tree.memberLexemes members) ++ [.rightBrace]) cs := h
  obtain ⟨front, back, rfl, hfront, hback⟩ := hlaid.exists_append
  cases hfront with
  | @cons _ _ before brace inner hbefore hbrace hinner =>
    obtain rfl := Lexeme.eq_of_spelled_leftBrace hbrace
    cases hback with
    | @cons _ _ between brace after hbetween hbrace hafter =>
      obtain rfl := Lexeme.eq_of_spelled_rightBrace hbrace
      cases hafter with
      | nil hafter =>
        let core := '\x7b' :: (inner ++ (between ++ ['\x7d']))
        have hcore : before ++ (['\x7b'] ++ inner) ++ (between ++ (['\x7d'] ++ after)) =
            before ++ core ++ after := by
          simp [core]
        have htrim : Text.trim core = core := by
          have hlast : core.getLast? = some '\x7d' := by simp [core, List.getLast?_cons]
          refine Text.trim_eq_self ?_ (hlast ▸ ?_) <;>
            · rintro _ ⟨⟩
              rfl
        rw [hcore, Text.trim_surrounded core (fun c hc => isBlank_of_isLayout (hbefore c hc))
          (fun c hc => isBlank_of_isLayout (hafter c hc)), htrim]
        have hend : Laid [.rightBrace] (between ++ ['\x7d']) :=
          .cons hbetween hbrace .empty
        have hlaid : Laid (.leftBrace :: (Tree.memberLexemes members ++ [.rightBrace])) core :=
          .next (.mark rfl) (hinner.append hend)
        exact ⟨⟨_, rfl⟩, hlaid⟩

end Json

namespace Message

/-- What comes of a text in which the reader finds a record. -/
theorem decode_of_read {text : String} {members : List (String × Tree)}
    (hread : Tree.read (String.ofList (Text.trim text.toList)) = .ok (.record members)) :
    decode text = (ofTree? (.record members)).elim (.error .noShape) .ok := by
  obtain ⟨hspells, hbounded⟩ := Tree.read_iff.mp hread
  rw [String.toList_ofList] at hspells
  obtain ⟨inner, hbrace⟩ := hspells.trim_record.1
  rw [Text.trim_trim] at hbrace
  have hbye : '\x7b' :: inner ≠ byeText.toList := by simp [byeText]
  simp only [decode, hbrace ▸ hspells.ofChars, hbrace, if_neg hbye, List.head?_cons, ne_eq,
    not_true_eq_false, if_false, Tree.tree_draft hbounded, Bool.false_eq_true]
  cases ofTree? (.record members) <;> rfl

/-- A text that is a record is decoded as the message that stands in its members. -/
theorem decode_eq_ok_iff {text : String} {members : List (String × Tree)}
    (hread : Tree.read (String.ofList (Text.trim text.toList)) = .ok (.record members))
    {message : Message} : decode text = .ok message ↔ Stands members message := by
  rw [decode_of_read hread, ← ofTree?_eq_some_iff]
  cases ofTree? (.record members) <;> simp

/-- A text from which a message is read is the word for the end, or the reader finds a record in it
that stands for the message. -/
theorem of_decode_eq_ok {text : String} {message : Message} (h : decode text = .ok message) :
    (message = .bye ∧ Text.trim text.toList = byeText.toList) ∨
      ∃ members, Tree.read (String.ofList (Text.trim text.toList)) = .ok (.record members) ∧
        Stands members message := by
  unfold decode at h
  dsimp only at h
  split at h
  · next hbye =>
    cases h
    exact Or.inl ⟨rfl, hbye⟩
  · split at h
    · cases h
    · rcases hchars : Draft.ofChars (Text.trim text.toList) with ⟨draft, trailing⟩
      rw [hchars] at h
      dsimp only at h
      split at h
      · cases h
      · next tree htree =>
        split at h
        · cases h
        · next found hfound =>
          cases trailing with
          | true => cases h
          | false =>
            cases h
            obtain ⟨rfl, hbounded⟩ := Tree.eq_draft_of_tree htree
            cases tree with
            | record members =>
              refine Or.inr ⟨members, Tree.read_iff.mpr ⟨?_, hbounded⟩,
                ofTree?_eq_some_iff.mp hfound⟩
              rw [String.toList_ofList]
              exact Tree.spells_of_ofChars hchars
            | null | bool _ | number _ | text _ | list _ => cases hfound

/-- Which texts are messages. The reader finds the values that a text spells, within its limits.
A record is read as a description if it is one, else as a candidate if it is one, and refused
otherwise; the word for the end is read as such, and any other text is refused with its beginning.
Whatever order, further members, spelling and blanks a message is given, it is still read. -/
theorem decode_grammar :
    (∀ (text : String) (t : Tree),
      Tree.read text = .ok t ↔ t.Spells text.toList ∧ t.Bounded Draft.maxDepth) ∧
    (∀ (text : String) (members : List (String × Tree)),
      Tree.read (String.ofList (Text.trim text.toList)) = .ok (.record members) →
        (∀ d, decode text = .ok (.description d) ↔ d.Stands members) ∧
        (∀ c, decode text = .ok (.candidate c) ↔
          (∀ d : Description, ¬d.Stands members) ∧ c.Stands members) ∧
        ((∀ d : Description, ¬d.Stands members) → (∀ c : Candidate, ¬c.Stands members) →
          decode text = .error .noShape)) ∧
    (∀ text : String,
      (Text.trim text.toList = byeText.toList → decode text = .ok .bye) ∧
      (Text.trim text.toList ≠ byeText.toList → (Text.trim text.toList).head? ≠ some '\x7b' →
        decode text = .error (.unknown (String.ofList ((Text.trim text.toList).take 32))))) ∧
    (∀ (text : String) (message : Message), decode text = .ok message →
      (message = .bye ∧ Text.trim text.toList = byeText.toList) ∨
        ∃ members,
          Tree.read (String.ofList (Text.trim text.toList)) = .ok (.record members)) ∧
    (∀ (text : String) (members : List (String × Tree)) (message : Message),
      Tree.read (String.ofList (Text.trim text.toList)) = .ok (.record members) →
      decode text = .ok message →
        ∀ (others extras : List (String × Tree)) (front cs back : List Char),
          others.Perm (members ++ extras) →
          (∀ m ∈ extras, m.1 ∉ knownKeys ∧ m.2.Bounded (Draft.maxDepth - 1)) →
          (∀ c ∈ front, Text.isBlank c = true) → (∀ c ∈ back, Text.isBlank c = true) →
          (Tree.record others).Spells cs →
            decode (String.ofList (front ++ cs ++ back)) = .ok message) := by
  refine ⟨fun _ _ => Tree.read_iff, fun text members hread => ?_, fun text => ⟨fun hbye => ?_,
    fun hbye hbrace => ?_⟩, fun text message hmessage => ?_, ?_⟩
  · have hok (message : Message) : decode text = .ok message ↔ Stands members message :=
      decode_eq_ok_iff hread
    refine ⟨fun d => ?_, fun c => ?_, fun hdescription hcandidate => ?_⟩
    · rw [hok]
      exact ⟨fun | .description hd => hd, .description⟩
    · rw [hok]
      exact ⟨fun | .candidate hnone hc => ⟨hnone, hc⟩, fun ⟨hnone, hc⟩ => .candidate hnone hc⟩
    · have hnone : ofTree? (.record members) = none := by
        refine Option.eq_none_iff_forall_ne_some.mpr fun message hmessage => ?_
        cases ofTree?_eq_some_iff.mp hmessage with
        | description hd => exact hdescription _ hd
        | candidate _ hc => exact hcandidate _ hc
      rw [decode_of_read hread, hnone, Option.elim_none]
  · simp only [decode, hbye, if_true]
  · simp only [decode, if_neg hbye, if_pos hbrace, keptStart]
  · exact (of_decode_eq_ok hmessage).imp_right fun ⟨members, hread, _⟩ => ⟨members, hread⟩
  · intro text members message hread hmessage others extras front cs back hperm hextras hfront hback
      hothers
    have hagree : ∀ key ∈ knownKeys, AgreeOn key members others := fun key hkey =>
      agreeOn_of_perm hperm fun m hm heq => (hextras m hm).1 (heq ▸ hkey)
    have hbounded : (Tree.record others).Bounded Draft.maxDepth := by
      have hmembers := Tree.membersBounded_iff.mp (Tree.read_iff.mp hread).2.2
      refine ⟨by decide, Tree.membersBounded_iff.mpr fun m hm => ?_⟩
      rcases List.mem_append.mp (hperm.subset hm) with hm | hm
      · exact hmembers m hm
      · exact (hextras m hm).2
    have hread' : Tree.read (String.ofList (Text.trim (String.ofList (front ++ cs ++ back)).toList))
        = .ok (.record others) := by
      rw [String.toList_ofList, Text.trim_surrounded cs hfront hback, Tree.read_iff,
        String.toList_ofList]
      exact ⟨hothers.trim_record.2, hbounded⟩
    exact (decode_eq_ok_iff hread').mpr (((decode_eq_ok_iff hread).mp hmessage).of_agree hagree)

/-- An offer with its members in another order, one more member, escapes and blanks. -/
theorem decode_respelled :
    let members : List (String × Tree) := [("type", .text "offer"), ("sdp", .text "")]
    let others : List (String × Tree) :=
      [("x", .list [.number ⟨true, 5, 1, false⟩]), ("type", .text "offer"), ("sdp", .text "")]
    let text := "\x7b\"type\":\"offer\",\"sdp\":\"\"\x7d"
    let respelled := "\x7b\"x\":[-5E1],\n\"\\u0074ype\":\"offer\",\"sdp\":\"\" \x7d"
    Tree.read (String.ofList (Text.trim text.toList)) = .ok (.record members) ∧
      (Tree.record others).Spells respelled.toList ∧
      decode text = .ok (.description ⟨.offer, ""⟩) ∧
      decode (String.ofList (['\u2003'] ++ respelled.toList ++ ['\n'])) =
        .ok (.description ⟨.offer, ""⟩) := by
  intro members others text respelled
  have htext : Text.trim text.toList = (Tree.record members).write := by decide
  have hread : Tree.read (String.ofList (Text.trim text.toList)) = .ok (.record members) := by
    rw [htext]
    exact Tree.read_write ⟨by decide, trivial, trivial, trivial⟩
  have hdraft : Draft.ofChars respelled.toList = ((Tree.record others).draft, false) := by
    cbv
  have hspells : (Tree.record others).Spells respelled.toList := Tree.spells_of_ofChars hdraft
  have hdecode : decode text = .ok (.description ⟨.offer, ""⟩) :=
    ((decode_grammar.2.1 text members hread).1 _).mpr ⟨⟨_, rfl, .word⟩, rfl⟩
  refine ⟨hread, hspells, hdecode, ?_⟩
  refine decode_grammar.2.2.2.2 text members _ hread hdecode others [others.head!] _ _ _ ?_ ?_
    (List.forall_mem_singleton.mpr rfl) (List.forall_mem_singleton.mpr rfl) hspells
  · exact (List.perm_append_singleton _ members).symm
  · rintro m hm
    obtain rfl := List.mem_singleton.mp hm
    exact ⟨by decide, by decide, rfl, trivial⟩

end Message

end PeerCall
