import Mathlib.Data.List.Nodup
import PeerCall.Proofs.Pair.Run

/-!
# The offer that an answer answers

A message does not say to which session it belongs, so a side that hangs up and calls again takes
the answer to its old offer for the answer to its new one. This file says what still holds: an
answer that a connection is given answers its own offer, or one of an earlier connection that was
still under way when the connection was begun.
-/

namespace PeerCall.Pair

open Agent (created givenTo ownOf announcedIn writtenIn during)

variable {parties : Parties} {p p' : Pair} {s : Side} {offer answer : Description}

/-- No two descriptions that the links of both sides have made are the same. -/
def Distinct (p : Pair) : Prop :=
  ((created (p.past .near) ++ created (p.past .far)).map (·.2.sdp)).Nodup

/-- An offer of a side is under way: it is on the way to the other side, or the connection there
has been given it and has no answer yet, or the answer waits there or is on the way back. -/
inductive UnderWay (p : Pair) (s : Side) (offer : Description) : Prop
  | called (hwire : (Message.description offer).encode ∈ p.wire s.other)
  | heard {l : Live} (hl : (p.agent s.other).live = some l)
      (hgiven : offer ∈ givenTo l.id (p.past s.other)) (hown : ownOf l.id (p.past s.other) = [])
  | answered {l : Live} {answer : Description} (hl : (p.agent s.other).live = some l)
      (hgiven : offer ∈ givenTo l.id (p.past s.other)) (hkind : answer.kind = .answer)
      (houtbox : (Message.description answer).encode ∈ (p.agent s.other).call.outbox)
  | returning {id : ConnId} {answer : Description} (hgiven : offer ∈ givenTo id (p.past s.other))
      (hkind : answer.kind = .answer)
      (hannounced : answer ∈ announcedIn (during id (p.past s.other)))
      (hwire : (Message.description answer).encode ∈ p.wire s)

/-! ## Distinct descriptions -/

/-- A description is announced in one session alone. -/
theorem Distinct.unique (h : p.Distinct) {id id' : ConnId} {d : Description}
    (hd : d ∈ announcedIn (during id (p.past s))) (hd' : d ∈ announcedIn (during id' (p.past s))) :
    id = id' := by
  have hnodup : ((created (p.past s)).map (·.2.sdp)).Nodup := by
    rw [Distinct, List.map_append] at h
    cases s with
    | near => exact h.of_append_left
    | far => exact h.of_append_right
  exact congrArg Prod.fst
    (List.inj_on_of_nodup_map hnodup (Agent.mem_created hd) (Agent.mem_created hd') rfl)

/-- Descriptions that are distinct were so before. -/
theorem Distinct.of_next (h : p'.Distinct) (hnext : Next parties p p') : p.Distinct := by
  have hcreated (s : Side) : (created (p.past s)).Sublist (created (p'.past s)) :=
    (hnext.past_mono s).sublist.filterMap _
  exact h.sublist (((hcreated .near).append (hcreated .far)).map _)

/-! ## One step back -/

/-- What a side has said is read as what it has announced. -/
theorem Said.announced {past : List Agent.Moment} {d : Description}
    (h : Said parties s past (Message.description d).encode) :
    ∃ id, d ∈ announcedIn (during id past) ∧
      (Message.description d).encode ∈ sentIn parties s (during id past) := by
  obtain hbye | ⟨id, message, hmessage, hencode, hsent⟩ := h
  · exact absurd hbye (Message.encode_ne_byeText (by simp))
  · obtain rfl := Message.encode_injective hencode
    exact ⟨id, List.mem_filterMap.mpr ⟨_, hmessage, rfl⟩, hsent⟩

/-- What a side is given that the other side has said, it is given as the other side wrote it. -/
theorem Said.eq_encode {past : List Agent.Moment} {text : String} {d : Description}
    (h : Said parties s past text) (hdecode : Message.decode text = .ok (.description d)) :
    text = (Message.description d).encode := by
  obtain rfl | ⟨id, message, -, rfl, -⟩ := h
  · have hbye : Message.decode Message.byeText = .ok .bye := rfl
    simp [hbye] at hdecode
  · rw [Message.decode_encode] at hdecode
    rw [Except.ok.inj hdecode]

/-- What a side that acts has been given, it was given before, or its text was the next on the
way. -/
theorem Acts.given_back {event : Event} {r : Replies} {id : ConnId} {d : Description}
    (h : Sound parties p) (hacts : Acts parties s event r p p')
    (hd : d ∈ givenTo id (p'.past s)) :
    d ∈ givenTo id (p.past s) ∨ (Message.description d).encode ∈ p.wire s ∧
      (d.kind = .answer → (p.agent s).live.map (·.id) = some id) := by
  rw [hacts.past] at hd
  rcases (h.ran s).given_back hd with hold | hnew
  · exact Or.inl hold
  · obtain ⟨peer, text, rfl, hdecode⟩ := hnew.message
    rcases hacts.heard with ⟨hnone, -⟩ | ⟨first, hfirst, hwire⟩
    · simp [Event.isMessage] at hnone
    · obtain ⟨-, rfl⟩ : _ ∧ text = first := by simpa using hfirst
      have hmem : text ∈ p.wire s := by simp [hwire]
      obtain rfl := (h.wire _ _ hmem).eq_encode hdecode
      exact Or.inr ⟨hmem, hnew.live⟩

/-- A description that a connection has after a move it had before, or it was on the way. -/
theorem Next.given_back (h : Sound parties p) (hnext : Next parties p p') {id : ConnId}
    {d : Description} (hd : d ∈ givenTo id (p'.past s)) :
    d ∈ givenTo id (p.past s) ∨ (Message.description d).encode ∈ p.wire s ∧
      (d.kind = .answer → (p.agent s).live.map (·.id) = some id) := by
  rcases hnext.cases with ⟨t, event, r, hacts⟩ | ⟨-, hpast, -⟩
  · rcases t.eq_or_eq_other s with rfl | rfl
    · exact hacts.given_back h hd
    · rw [hacts.past_other] at hd
      exact Or.inl hd
  · rw [hpast] at hd
    exact Or.inl hd

/-- A side that acts may send an offer, and brings no other one under way. -/
theorem UnderWay.back_of_caller {event : Event} {r : Replies} (h : Sound parties p)
    (hacts : Acts parties s event r p p') (hoffer : p'.UnderWay s offer) :
    p.UnderWay s offer ∨ ∃ l, (p.agent s).live = some l ∧
      offer ∈ announcedIn (during l.id (p'.past s)) := by
  cases hoffer with
  | called hwire =>
    rw [hacts.wire] at hwire
    rcases List.mem_append.mp hwire with hold | hnew
    · exact Or.inl (.called hold)
    · obtain ⟨l, hl, hannounced, -⟩ := (h.ran s).sent_announced hnew
      rw [hacts.past]
      exact Or.inr ⟨l, hl, hannounced⟩
  | heard hl hgiven hown =>
    rw [hacts.agent_other] at hl
    rw [hacts.past_other] at hgiven hown
    exact Or.inl (.heard hl hgiven hown)
  | answered hl hgiven hkind houtbox =>
    rw [hacts.agent_other] at hl houtbox
    rw [hacts.past_other] at hgiven
    exact Or.inl (.answered hl hgiven hkind houtbox)
  | returning hgiven hkind hannounced hwire =>
    rw [hacts.past_other] at hgiven hannounced
    exact Or.inl (.returning hgiven hkind hannounced (hacts.wire_subset hwire))

/-- Nor does the other side bring an offer under way. -/
theorem UnderWay.back_of_callee {event : Event} {r : Replies} (h : Sound parties p)
    (hdistinct : p'.Distinct) (hacts : Acts parties s.other event r p p')
    (hoffer : p'.UnderWay s offer) : p.UnderWay s offer := by
  have hran := h.ran s.other
  have hpast := hacts.past
  cases hoffer with
  | called hwire => exact .called (hacts.wire_subset hwire)
  | @heard l' hl' hgiven hown =>
    rw [hacts.agent] at hl'
    rw [hpast] at hown
    rw [Agent.ownOf_append, List.append_eq_nil_iff] at hown
    rcases hacts.given_back h hgiven with hold | ⟨hmem, -⟩
    · obtain ⟨l, hl, hid⟩ := hran.live_of_given hl' hold
      rw [hid] at hold hown
      exact .heard hl hold hown.1
    · exact .called hmem
  | @answered l' answer hl' hgiven hkind houtbox =>
    rw [hacts.agent] at hl' houtbox
    rw [hpast] at hgiven
    obtain ⟨l, hl, hid, hanswer⟩ := hran.outbox_back hl' houtbox
    rw [hid] at hgiven
    obtain ⟨hoffer, hwaits | hown⟩ := hran.offer_back hl hkind hanswer hgiven
    · exact .answered hl hoffer hkind hwaits
    · exact .heard hl hoffer hown
  | @returning id answer hgiven hkind hannounced hwire =>
    have hwire' := hacts.wire
    rw [Side.other_other] at hwire'
    rw [hwire'] at hwire
    rcases List.mem_append.mp hwire with hold | hnew
    · -- The answer was announced before, by the same connection, and for the same offer.
      obtain ⟨id', hannounced', -⟩ := (h.wire s _ hold).announced
      have hmove : p.past s.other <+: p'.past s.other := by
        rw [hpast]
        exact List.prefix_append _ _
      have hmore : answer ∈ announcedIn (during id' (p'.past s.other)) :=
        (Agent.announcedIn_mono hmove).subset hannounced'
      obtain rfl := hdistinct.unique hannounced hmore
      obtain ⟨other, hother, -⟩ := hran.exists_offer hannounced' hkind
      rw [hpast] at hgiven
      obtain rfl := (hran.step event r).givenTo_unique hgiven
        ((Agent.givenTo_mono (List.prefix_append _ _)).subset hother)
      exact .returning hother hkind hannounced' hold
    · obtain ⟨l, hl, hannounced', hanswer⟩ := hran.sent_announced hnew
      rw [← hpast] at hannounced'
      obtain rfl := hdistinct.unique hannounced hannounced'
      rw [hpast] at hgiven
      obtain ⟨hoffer, hwaits | hown⟩ := hran.offer_back hl hkind hanswer hgiven
      · exact .answered hl hoffer hkind hwaits
      · exact .heard hl hoffer hown

/-- An offer that is under way was under way before, unless the side has just sent it. -/
theorem UnderWay.back (h : Sound parties p) (hnext : Next parties p p') (hdistinct : p'.Distinct)
    (hoffer : p'.UnderWay s offer) :
    p.UnderWay s offer ∨ ∃ l, (p.agent s).live = some l ∧
      offer ∈ announcedIn (during l.id (p'.past s)) := by
  rcases hnext.cases with ⟨t, event, r, hacts⟩ | ⟨hagent, hpast, hwire⟩
  · rcases s.eq_or_eq_other t with rfl | rfl
    · exact hoffer.back_of_caller h hacts
    · exact Or.inl (hoffer.back_of_callee h hdistinct hacts)
  · left
    cases hoffer with
    | called hcalled => exact .called (hwire _ hcalled)
    | heard hl hgiven hown =>
      rw [hagent] at hl
      rw [hpast] at hgiven hown
      exact .heard hl hgiven hown
    | answered hl hgiven hkind houtbox =>
      rw [hagent] at hl houtbox
      rw [hpast] at hgiven
      exact .answered hl hgiven hkind houtbox
    | returning hgiven hkind hannounced hreturning =>
      rw [hpast] at hgiven hannounced
      exact .returning hgiven hkind hannounced (hwire _ hreturning)

/-! ## Since a connection was begun -/

/-- What a move does to the connection of a side. -/
theorem Next.passage (h : Sound parties p) (hnext : Next parties p p') (s : Side) :
    p'.agent s = p.agent s ∨
      (Agent.Passage (p.agent s) (p'.agent s) ∧ (p.agent s).issued ≤ (p'.agent s).issued) := by
  rcases hnext.cases with ⟨t, event, r, hacts⟩ | ⟨hagent, -, -⟩
  · rcases t.eq_or_eq_other s with rfl | rfl
    · have ha := (h.ran s).coherent
      have hstride : Agent.Stride (parties.settings s) r (p.agent s) event _ :=
        Agent.step_stride ha event
      rw [hacts.agent]
      exact Or.inr ⟨hstride.passage ha, hstride.issued_le⟩
    · exact Or.inl hacts.agent_other
  · exact Or.inl (congrFun hagent s)

/-- The connections of a side that has none are yet to come. -/
theorem Leads.later {start : Pair} (hstart : Reachable parties start)
    (hfree : (start.agent s).live = none) (h : Leads parties start p) :
    (start.agent s).issued ≤ (p.agent s).issued ∧
      ∀ l, (p.agent s).live = some l → (start.agent s).issued < l.id := by
  induction h with
  | refl => exact ⟨Nat.le_refl _, by simp [hfree]⟩
  | @tail q p hq hnext ih =>
    obtain ⟨hissued, hlater⟩ := ih
    rcases hnext.passage (Reachable.sound (hstart.trans hq)) s with hsame | ⟨hpassage, hle⟩
    · rw [hsame]
      exact ⟨hissued, hlater⟩
    · refine ⟨Nat.le_trans hissued hle, fun l' hl' => ?_⟩
      cases hpassage with
      | rests _ hnone | ends _ hnone => simp [hnone] at hl'
      | begins _ hlive =>
        obtain rfl : { id := (q.agent s).issued + 1 } = l' := Option.some.inj (hlive.symm.trans hl')
        exact Nat.lt_succ_of_le hissued
      | goesOn hl hlive hid =>
        obtain rfl := Option.some.inj (hlive.symm.trans hl')
        rw [hid]
        exact hlater _ hl

/-- A connection of a side begins with a move. -/
structure Begins (s : Side) (id : ConnId) (p p' : Pair) : Prop where
  live : (p.agent s).live = none
  issued : (p.agent s).issued + 1 = id
  begun : (p'.agent s).live.map (·.id) = some id

/-- The live connection of a side has begun with some move. -/
theorem exists_begins (h : Reachable parties p) {l : Live} (hl : (p.agent s).live = some l) :
    ∃ start next, Reachable parties start ∧ Next parties start next ∧
      Begins s l.id start next ∧ Leads parties next p := by
  induction h generalizing l with
  | refl => simp at hl
  | @tail q p hq hnext ih =>
    have hgoesOn {l₀ : Live} (hl₀ : (q.agent s).live = some l₀) (hid : l.id = l₀.id) :
        ∃ start next, Reachable parties start ∧ Next parties start next ∧
          Begins s l.id start next ∧ Leads parties next p := by
      obtain ⟨start, next, hstart, hmove, hbegins, hleads⟩ := ih hl₀
      rw [hid]
      exact ⟨start, next, hstart, hmove, hbegins, hleads.tail hnext⟩
    rcases hnext.passage (Reachable.sound hq) s with hsame | ⟨hpassage, -⟩
    · rw [hsame] at hl
      exact hgoesOn hl rfl
    · cases hpassage with
      | rests _ hnone | ends _ hnone => simp [hnone] at hl
      | begins hfree hlive =>
        obtain rfl : { id := (q.agent s).issued + 1 } = l := Option.some.inj (hlive.symm.trans hl)
        exact ⟨q, p, hq, hnext, ⟨hfree, rfl, by simp [hlive]⟩, .refl⟩
      | goesOn hl₀ hlive hid =>
        obtain rfl := Option.some.inj (hlive.symm.trans hl)
        exact hgoesOn hl₀ hid

/-- An offer was under way when the connection of a side was begun. -/
def WasUnderWay (parties : Parties) (p : Pair) (s : Side) (id : ConnId) (offer : Description) :
    Prop :=
  ∃ start next, Reachable parties start ∧ Next parties start next ∧ Begins s id start next ∧
    Leads parties next p ∧ start.UnderWay s offer

/-- What was under way then still was after a move more. -/
theorem WasUnderWay.of_next {id : ConnId} (h : WasUnderWay parties p s id offer)
    (hnext : Next parties p p') : WasUnderWay parties p' s id offer := by
  obtain ⟨start, next, hstart, hmove, hbegins, hleads, hstill⟩ := h
  exact ⟨start, next, hstart, hmove, hbegins, hleads.tail hnext, hstill⟩

/-- An offer that is under way was under way when a side had no connection, or comes from a later
connection of the side. -/
theorem UnderWay.since {start : Pair} (hstart : Reachable parties start)
    (hfree : (start.agent s).live = none) (h : Leads parties start p) (hdistinct : p.Distinct)
    (hoffer : p.UnderWay s offer) :
    start.UnderWay s offer ∨ ∃ id, (start.agent s).issued < id ∧
      offer ∈ announcedIn (during id (p.past s)) := by
  induction h with
  | refl => exact Or.inl hoffer
  | @tail q p hq hnext ih =>
    have hsound : Sound parties q := Reachable.sound (hstart.trans hq)
    rcases hoffer.back hsound hnext hdistinct with hold | ⟨l, hl, hannounced⟩
    · rcases ih (hdistinct.of_next hnext) hold with hstill | ⟨id, hid, hannounced⟩
      · exact Or.inl hstill
      · exact Or.inr ⟨id, hid, (Agent.announcedIn_mono (hnext.past_mono s)).subset hannounced⟩
    · exact Or.inr ⟨l.id, (Leads.later hstart hfree hq).2 l hl, hannounced⟩

/-! ## What an answer answers -/

/-- An answer of the connection `callee` of the other side answers an offer that the connection
`caller` of a side has made and sent. -/
structure Answers (parties : Parties) (p : Pair) (s : Side) (answer offer : Description)
    (callee caller : ConnId) : Prop where
  announced : answer ∈ announcedIn (during callee (p.past s.other))
  given : offer ∈ givenTo callee (p.past s.other)
  kind : offer.kind = .offer
  offered : offer ∈ announcedIn (during caller (p.past s))
  sent : (Message.description offer).encode ∈ sentIn parties s (during caller (p.past s))

variable {callee caller : ConnId}

/-- What an answer answers stays so. -/
theorem Answers.of_next (h : Answers parties p s answer offer callee caller)
    (hnext : Next parties p p') : Answers parties p' s answer offer callee caller := by
  have hown := hnext.past_mono s
  have hother := hnext.past_mono s.other
  exact {
    announced := (Agent.announcedIn_mono hother).subset h.announced
    given := (Agent.givenTo_mono hother).subset h.given
    kind := h.kind
    offered := (Agent.announcedIn_mono hown).subset h.offered
    sent := ((hown.filter _).flatMap _).subset h.sent }

/-- What a connection has been given was made and sent by a connection of the other side. -/
theorem Sound.exists_announced (h : Sound parties p) {id : ConnId} {d : Description}
    (hd : d ∈ givenTo id (p.past s)) :
    ∃ other, d ∈ announcedIn (during other (p.past s.other)) ∧
      (Message.description d).encode ∈ sentIn parties s.other (during other (p.past s.other)) := by
  obtain ⟨m, hm, peer, text, hevent, hdecode⟩ := (h.ran s).exists_message hd
  have hsaid := h.heard s m hm peer text hevent
  obtain rfl := hsaid.eq_encode hdecode
  exact hsaid.announced

/-- An answer on its way to a side answers an offer that is under way. -/
theorem Sound.exists_answers (h : Sound parties p) (hkind : answer.kind = .answer)
    (hwire : (Message.description answer).encode ∈ p.wire s) :
    ∃ callee caller offer, Answers parties p s answer offer callee caller ∧
      p.UnderWay s offer := by
  obtain ⟨callee, hannounced, -⟩ := (h.wire s _ hwire).announced
  obtain ⟨offer, hgiven, hoffer⟩ := (h.ran s.other).exists_offer hannounced hkind
  obtain ⟨caller, hoffered, hsent⟩ := h.exists_announced hgiven
  rw [Side.other_other] at hoffered hsent
  exact ⟨callee, caller, offer, ⟨hannounced, hgiven, hoffer, hoffered, hsent⟩,
    .returning hgiven hkind hannounced hwire⟩

/-- An offer of a side that is under way comes from the live connection, or from an earlier one
and was under way when the live connection was begun. -/
theorem UnderWay.caller_eq (h : Reachable parties p) (hdistinct : p.Distinct) {l : Live}
    (hl : (p.agent s).live = some l) (hoffer : p.UnderWay s offer)
    (hoffered : offer ∈ announcedIn (during caller (p.past s))) :
    caller = l.id ∨ caller < l.id ∧ WasUnderWay parties p s l.id offer := by
  have hran := (Reachable.sound h).ran s
  have hcaller : caller ≤ l.id := by
    rw [hran.coherent.id_eq_issued l hl]
    exact hran.le_issued hoffered
  obtain ⟨start, next, hstart, hmove, hbegins, hleads⟩ := exists_begins h hl
  rcases hoffer.since hstart hbegins.live (.head hmove hleads) hdistinct with
    hstill | ⟨id, hid, hoffered'⟩
  · by_cases hsame : caller = l.id
    · exact Or.inl hsame
    · have hearlier : caller < l.id := Nat.lt_of_le_of_ne hcaller hsame
      exact Or.inr ⟨hearlier, start, next, hstart, hmove, hbegins, hleads, hstill⟩
  · obtain rfl := hdistinct.unique hoffered hoffered'
    have hlater : l.id ≤ caller := by
      rw [← hbegins.issued]
      exact hid
    exact Or.inl (Nat.le_antisymm hcaller hlater)

/-- An answer that a connection has been given was made by a connection of the other side that
has been given an offer, and this offer was made and sent by the connection itself, or by an
earlier one and was under way when the connection was begun. -/
theorem run_answered (h : Reachable parties p) (hdistinct : p.Distinct) {c : ConnId}
    (hgiven : answer ∈ givenTo c (p.past s)) (hkind : answer.kind = .answer) :
    ∃ callee caller offer, Answers parties p s answer offer callee caller ∧
      (caller = c ∨ caller < c ∧ WasUnderWay parties p s c offer) := by
  induction h with
  | refl =>
    have hnone : givenTo c (({} : Pair).past s) = [] := rfl
    simp [hnone] at hgiven
  | @tail q p hq hnext ih =>
    have hsound : Sound parties q := Reachable.sound hq
    have hdistinct' : q.Distinct := hdistinct.of_next hnext
    rcases hnext.given_back hsound hgiven with hold | ⟨hwire, hlive⟩
    · obtain ⟨callee, caller, offer, hanswers, hcaller⟩ := ih hdistinct' hold
      refine ⟨callee, caller, offer, hanswers.of_next hnext, ?_⟩
      obtain rfl | ⟨hearlier, hwas⟩ := hcaller
      · exact Or.inl rfl
      · exact Or.inr ⟨hearlier, hwas.of_next hnext⟩
    · obtain ⟨l, hl, rfl⟩ := Option.map_eq_some_iff.mp (hlive hkind)
      obtain ⟨callee, caller, offer, hanswers, hoffer⟩ := hsound.exists_answers hkind hwire
      refine ⟨callee, caller, offer, hanswers.of_next hnext, ?_⟩
      obtain rfl | ⟨hearlier, hwas⟩ := hoffer.caller_eq hq hdistinct' hl hanswers.offered
      · exact Or.inl rfl
      · exact Or.inr ⟨hearlier, hwas.of_next hnext⟩

/-! ## A call that is begun again -/

/-- Two sides with the settings of a fresh start. -/
def aliceAndBob : Parties where
  settings := fun _ => Settings.default
  name
    | .near => "alice"
    | .far => "bob"

/-- A side calls, hangs up and calls again while the answer to its first offer is on the way. -/
def callAgain : List Move :=
  [.turn .near (.command (.connect "bob")) {},
    .turn .near (.outcome 1 (.localReady ⟨.offer, "first"⟩)) {},
    .deliver .far {},
    .turn .far (.outcome 1 (.remoteApplied .offer)) {},
    .turn .far (.outcome 1 (.localReady ⟨.answer, "reply"⟩)) {},
    .turn .near (.command .disconnect) {},
    .turn .near (.command (.connect "bob")) {},
    .turn .near (.outcome 2 (.localReady ⟨.offer, "second"⟩)) {},
    .deliver .near {}]

/-- The second connection is given the answer to the offer of the first. -/
theorem exists_callAgain :
    ∃ p, performAll aliceAndBob {} callAgain = some p ∧
      created (p.past .near) = [(1, ⟨.offer, "first"⟩), (2, ⟨.offer, "second"⟩)] ∧
      created (p.past .far) = [(1, ⟨.answer, "reply"⟩)] ∧
      givenTo 2 (p.past .near) = [⟨.answer, "reply"⟩] ∧
      givenTo 1 (p.past .far) = [⟨.offer, "first"⟩] := by
  have hrun : (performAll aliceAndBob {} callAgain).map (fun p =>
      (created (p.past .near), created (p.past .far), givenTo 2 (p.past .near),
        givenTo 1 (p.past .far))) =
      some ([(1, ⟨.offer, "first"⟩), (2, ⟨.offer, "second"⟩)], [(1, ⟨.answer, "reply"⟩)],
        [⟨.answer, "reply"⟩], [⟨.offer, "first"⟩]) := by
    decide +kernel
  obtain ⟨p, hp, hall⟩ := Option.map_eq_some_iff.mp hrun
  simp only [Prod.mk.injEq] at hall
  exact ⟨p, hp, hall⟩

/-- In this run the answer can only answer the offer of the first connection. -/
theorem Answers.eq_first
    (hnear : created (p.past .near) = [(1, ⟨.offer, "first"⟩), (2, ⟨.offer, "second"⟩)])
    (hfar : created (p.past .far) = [(1, ⟨.answer, "reply"⟩)])
    (hfirst : givenTo 1 (p.past .far) = [⟨.offer, "first"⟩])
    (h : Answers parties p .near ⟨.answer, "reply"⟩ offer callee caller) :
    offer = ⟨.offer, "first"⟩ ∧ caller = 1 := by
  have hcallee := Agent.mem_created h.announced
  rw [Side.other, hfar] at hcallee
  obtain rfl : callee = 1 := by simpa using hcallee
  have hgiven := h.given
  rw [Side.other, hfirst] at hgiven
  obtain rfl : offer = ⟨.offer, "first"⟩ := by simpa using hgiven
  have hcaller := Agent.mem_created h.offered
  rw [hnear] at hcaller
  exact ⟨rfl, by simpa using hcaller⟩

/-- An answer that a connection is given need not answer the offer of this connection, nor any
other offer that it has made. -/
theorem exists_late_answer :
    ∃ p, performAll aliceAndBob {} callAgain = some p ∧ Reachable aliceAndBob p ∧ p.Distinct ∧
      ⟨.answer, "reply"⟩ ∈ givenTo 2 (p.past .near) ∧
      ¬ ∃ callee offer, Answers aliceAndBob p .near ⟨.answer, "reply"⟩ offer callee 2 := by
  obtain ⟨p, hp, hnear, hfar, hsecond, hfirst⟩ := exists_callAgain
  refine ⟨p, hp, leads_of_performAll hp, ?_, ?_, ?_⟩
  · rw [Distinct, hnear, hfar]
    decide
  · rw [hsecond]
    exact List.mem_singleton_self _
  · rintro ⟨callee, offer, hanswers⟩
    obtain ⟨-, htwo⟩ := hanswers.eq_first hnear hfar hfirst
    simp at htwo

/-- The offer that it answers was still under way when the second connection was begun. -/
theorem callAgain_underWay :
    ∃ p, performAll aliceAndBob {} callAgain = some p ∧
      ⟨.answer, "reply"⟩ ∈ givenTo 2 (p.past .near) ∧
      WasUnderWay aliceAndBob p .near 2 ⟨.offer, "first"⟩ := by
  obtain ⟨p, hp, hnear, hfar, hsecond, hfirst⟩ := exists_callAgain
  have hreachable : Reachable aliceAndBob p := leads_of_performAll hp
  have hdistinct : p.Distinct := by
    rw [Distinct, hnear, hfar]
    decide
  have hgiven : ⟨.answer, "reply"⟩ ∈ givenTo 2 (p.past .near) := by
    rw [hsecond]
    exact List.mem_singleton_self _
  obtain ⟨callee, caller, offer, hanswers, hcaller⟩ :=
    run_answered hreachable hdistinct hgiven rfl
  obtain ⟨rfl, rfl⟩ := hanswers.eq_first hnear hfar hfirst
  obtain hsame | ⟨-, hwas⟩ := hcaller
  · simp at hsame
  · exact ⟨p, hp, hgiven, hwas⟩

end PeerCall.Pair
