import Mathlib.Data.List.Infix
import PeerCall.Proofs.Agent.Exchange
import PeerCall.Proofs.Message.RoundTrip

/-!
# Where descriptions come from

A connection is given a description of the peer only by a message that holds it, and it makes an
answer only after it has been given an offer. All that is sent to a peer was written in a session,
and since every message can be read from its text, the text tells what was written.
-/

namespace PeerCall

/-- The description that an event reports to be made by the link of a connection. -/
def Event.created? : Event → Option (ConnId × Description)
  | .outcome id (.localReady d) => some (id, d)
  | _ => none

namespace Agent

variable {settings : Settings} {a : Agent} {r : Replies} {event : Event}
  {x : Agent × List Effect} {past : List Moment} {id : ConnId} {d : Description} {text : String}

/-- The descriptions that links have made in some steps, with their connections. -/
def created (past : List Moment) : List (ConnId × Description) :=
  past.filterMap fun m => m.event.created?

/-- The descriptions of the peer that a connection has been given. -/
def givenTo (id : ConnId) (past : List Moment) : List Description :=
  peerDescriptions (exchanged id (effectsOf past))

/-- The descriptions of this side that it has been given. -/
def ownOf (id : ConnId) (past : List Moment) : List Description :=
  ownDescriptions (exchanged id (effectsOf past))

/-- What a step gets to the peer of a name. -/
def sentTo (name : String) (effects : List Effect) : List String :=
  delivered ((attempts effects).filter (·.peer = name))

/-! ## One step -/

/-- A description of the peer for a connection comes from a message of the peer. An answer is
given only to the live connection. -/
structure Given (a : Agent) (event : Event) (id : ConnId) (d : Description) : Prop where
  message : ∃ peer text, event = .bus (.message peer text) ∧
    Message.decode text = .ok (.description d)
  live : d.kind = .answer → a.live.map (·.id) = some id

/-- The description with which a call is opened comes from the offer of the peer. -/
theorem given_of_opening {peer : String} {offer : Option Description}
    (hopening : a.opening settings event = some (peer, offer))
    (hd : .setRemote d ∈ openingOperations offer) : a.Given event id d := by
  obtain rfl : offer = some d := by
    cases offer with
    | none => simp [openingOperations] at hd
    | some offer => simpa [openingOperations, eq_comm] using hd
  unfold opening at hopening
  split at hopening
  · simp at hopening
  · split at hopening <;> simp at hopening
  · next peer text =>
    split at hopening
    · next offer hdecode =>
      split at hopening
      · next hkind =>
        obtain ⟨-, rfl⟩ : _ ∧ offer = d := by simpa using hopening
        exact ⟨⟨_, text, rfl, hdecode⟩, by simp [hkind]⟩
      · simp at hopening
    · simp at hopening
  · simp at hopening

/-- A description that the live connection is asked to apply comes from a message of the peer. -/
theorem Asks.given {l : Live} {peer : String} {operations : List Operation} (hl : a.live = some l)
    (h : Asks a l peer event operations) (hd : .setRemote d ∈ operations) :
    a.Given event l.id d := by
  have hlive : a.live.map (·.id) = some l.id := by simp [hl]
  cases h with
  | offer hdecode | answer hdecode =>
    simp only [List.mem_cons, Operation.setRemote.injEq, reduceCtorEq, List.not_mem_nil,
      or_false] at hd
    subst hd
    exact ⟨⟨_, _, rfl, hdecode⟩, fun _ => hlive⟩
  | _ => simp at hd

/-- Every stride hands over descriptions of the peer in this way only. -/
theorem Stride.given (hx : Stride settings r a event x)
    (hd : .setRemote d ∈ Agent.submitted id x.2) : a.Given event id d := by
  cases hx.submits with
  | nothing hnone => simp [hnone] at hd
  | opening hopening htaken _ hsubmitted =>
    rw [hsubmitted] at hd
    split_ifs at hd
    · exact given_of_opening hopening (htaken.subset hd)
    · simp at hd
  | asked hl hasks htaken hsubmitted =>
    rw [hsubmitted] at hd
    split_ifs at hd with hid
    · exact hid ▸ hasks.given hl (htaken.subset hd)
    · simp at hd

/-- What an event adds to the outbox is a candidate, or a description that the live connection has
made. -/
theorem mem_written {message : Message} (h : message ∈ a.written event) :
    ∃ l, a.live = some l ∧ ((∃ c, message = .candidate c) ∨ ∃ d, message = .description d ∧
      event = .outcome l.id (.localReady d) ∧
        (d.kind = .answer → a.call.phase = .haveRemoteOffer)) := by
  unfold written at h
  split at h
  · split_ifs at h with hid
    · obtain ⟨l, hl, -⟩ := Option.map_eq_some_iff.mp hid
      exact ⟨l, hl, Or.inl ⟨_, List.mem_singleton.mp h⟩⟩
    · simp at h
  · split_ifs at h with hfits
    · obtain ⟨hid, hphase⟩ := hfits
      obtain ⟨l, hl, rfl⟩ := Option.map_eq_some_iff.mp hid
      refine ⟨l, hl, Or.inr ⟨_, List.mem_singleton.mp h, rfl, fun hkind => ?_⟩⟩
      rcases hphase with ⟨-, hoffer⟩ | ⟨hphase, -⟩
      · simp [hkind] at hoffer
      · exact hphase
    · simp at h
  · simp at h

/-- A description is announced when the link of the live connection has made it, and an answer
while an offer of the peer is to be answered. -/
theorem mem_announced (h : d ∈ a.announced event) :
    ∃ l, a.live = some l ∧ event = .outcome l.id (.localReady d) ∧
      (d.kind = .answer → a.call.phase = .haveRemoteOffer) := by
  obtain ⟨message, hmessage, hd⟩ := List.mem_filterMap.mp h
  obtain ⟨l, hl, ⟨c, rfl⟩ | ⟨d', rfl, hevent, hphase⟩⟩ := mem_written hmessage
  · simp [Message.description?] at hd
  · obtain rfl := Option.some.inj hd
    exact ⟨l, hl, hevent, hphase⟩

/-- A step gets to a peer what waited in the outbox, what its event adds to it, or the last word. -/
theorem Stride.sent (ha : a.Coherent) (hx : Stride settings r a event x) {name : String}
    (htext : text ∈ sentTo name x.2) :
    ∃ l, a.live = some l ∧
      (text = Message.byeText ∨ text ∈ a.call.outbox ∨ text ∈ a.queued event) := by
  obtain ⟨attempt, hattempt, rfl⟩ := List.mem_map.mp htext
  have hmem : attempt ∈ Agent.attempts x.2 :=
    (List.mem_filter.mp (List.mem_filter.mp hattempt).1).1
  cases hx.posts ha with
  | silent _ hnone | ends _ _ _ hnone => simp [hnone] at hmem
  | goesOn hl _ _ hsends => exact ⟨_, hl, Or.inr (List.mem_append.mp (hsends.text_mem _ hmem))⟩
  | hangsUp hl _ _ _ hone =>
    rw [hone] at hmem
    exact ⟨_, hl, Or.inl (congrArg Attempt.text (List.mem_singleton.mp hmem))⟩

/-! ## Runs -/

/-- An agent that has come so far by these steps. -/
def Ran (settings : Settings) (past : List Moment) (a : Agent) : Prop :=
  ∃ script, past = history settings script {} ∧ a = (run settings script {}).1

/-- A new agent has come there by no steps. -/
theorem ran_new : Ran settings [] {} := ⟨[], rfl, rfl⟩

namespace Ran

/-- One step more. -/
theorem step (h : Ran settings past a) (event : Event) (r : Replies) :
    Ran settings (past ++ [a.moment settings event r]) (a.step settings r event).1 := by
  obtain ⟨script, rfl, rfl⟩ := h
  exact ⟨script ++ [(event, r)], (history_concat _ _ _ _).symm, (run_concat _ _ _ _).symm⟩

/-- An agent is coherent wherever it has come. -/
theorem coherent (h : Ran settings past a) : a.Coherent := by
  obtain ⟨script, -, rfl⟩ := h
  exact coherent_run script

/-- Its sessions are negotiated, -/
theorem negotiated (h : Ran settings past a) : Negotiated past a := by
  obtain ⟨script, rfl, rfl⟩ := h
  exact run_negotiated script

/-- and its outbox is sorted. -/
theorem sorted (h : Ran settings past a) : Sorted settings past a := by
  obtain ⟨script, rfl, rfl⟩ := h
  exact run_sorted settings script

/-- A connection that is yet to be begun has been given nothing. -/
theorem submitted_fresh (h : Ran settings past a) (hid : a.issued < id) :
    submitted id (effectsOf past) = [] := by
  obtain ⟨script, rfl, rfl⟩ := h
  exact run_submitted_fresh script id hid

/-- No connection is given two descriptions of the peer. -/
theorem givenTo_unique (h : Ran settings past a) {d' : Description} (hd : d ∈ givenTo id past)
    (hd' : d' ∈ givenTo id past) : d = d' := by
  obtain ⟨-, hone, -⟩ := (h.negotiated.all id).legal.descriptions
  change (givenTo id past).length ≤ 1 at hone
  cases hall : givenTo id past with
  | nil => simp [hall] at hd
  | cons first rest =>
    have hrest : rest = [] := List.eq_nil_of_length_eq_zero (by simpa [hall] using hone)
    subst hrest
    rw [hall, List.mem_singleton] at hd hd'
    rw [hd, hd']

/-- What waits in the outbox was written in the session. -/
theorem outbox_written (h : Ran settings past a) {l : Live} (hl : a.live = some l)
    (htext : text ∈ a.call.outbox) :
    ∃ message ∈ writtenIn (during l.id past), text = message.encode := by
  obtain ⟨hdelivered, -⟩ := (h.sorted.live l hl).delivery.live (by simp [hl])
  have hqueued : text ∈ queuedIn (during l.id past) :=
    hdelivered ▸ List.mem_append_right _ htext
  rw [queuedIn_eq_map] at hqueued
  obtain ⟨message, hmessage, rfl⟩ := List.mem_map.mp hqueued
  exact ⟨message, hmessage, rfl⟩

/-- So was what a step sends, but for the last word. -/
theorem sent_written (h : Ran settings past a) {name : String}
    (htext : text ∈ sentTo name (a.step settings r event).2) :
    ∃ l, a.live = some l ∧ (text = Message.byeText ∨
      (text ∈ a.call.outbox ∨ text ∈ a.queued event) ∧
        ∃ message ∈ writtenIn (during l.id (past ++ [a.moment settings event r])),
          text = message.encode) := by
  have hstride : Stride settings r a event _ := step_stride h.coherent event
  obtain ⟨l, hl, hbye | hours⟩ := hstride.sent h.coherent htext
  · exact ⟨l, hl, Or.inl hbye⟩
  · refine ⟨l, hl, Or.inr ⟨hours, ?_⟩⟩
    rw [during_of_live hl]
    simp only [writtenIn, List.flatMap_append, List.flatMap_singleton]
    rcases hours with hwaits | hqueued
    · obtain ⟨message, hmessage, htext⟩ := h.outbox_written hl hwaits
      exact ⟨message, List.mem_append_left _ hmessage, htext⟩
    · rw [queued_eq_map] at hqueued
      obtain ⟨message, hmessage, rfl⟩ := List.mem_map.mp hqueued
      exact ⟨message, List.mem_append_right _ hmessage, rfl⟩

/-- A description that a step sends was announced in the session. -/
theorem sent_announced (h : Ran settings past a) {name : String}
    (htext : (Message.description d).encode ∈ sentTo name (a.step settings r event).2) :
    ∃ l, a.live = some l ∧
      d ∈ announcedIn (during l.id (past ++ [a.moment settings event r])) ∧
        ((Message.description d).encode ∈ a.call.outbox ∨
          (Message.description d).encode ∈ a.queued event) := by
  obtain ⟨l, hl, hbye | ⟨hours, message, hmessage, hencode⟩⟩ := h.sent_written htext
  · exact absurd hbye (Message.encode_ne_byeText (by simp))
  · obtain rfl := Message.encode_injective hencode
    exact ⟨l, hl, List.mem_filterMap.mpr ⟨_, hmessage, rfl⟩, hours⟩

end Ran

/-- A step adds the descriptions of the peer that it hands over. -/
theorem givenTo_append (m : Moment) :
    givenTo id (past ++ [m]) = givenTo id past ++ peerDescriptions (exchanged id m.effects) := by
  simp [givenTo, exchanged_effectsOf_append, peerDescriptions]

/-- So it is with the descriptions of this side. -/
theorem ownOf_append (m : Moment) :
    ownOf id (past ++ [m]) = ownOf id past ++ ownDescriptions (exchanged id m.effects) := by
  simp [ownOf, exchanged_effectsOf_append, ownDescriptions]

/-- What a connection has been given stays so. -/
theorem givenTo_mono {past' : List Moment} (h : past <+: past') :
    givenTo id past <+: givenTo id past' :=
  (((h.flatMap _).filterMap _).filter _).filterMap _

/-- What it has announced stays so. -/
theorem announcedIn_mono {past' : List Moment} (h : past <+: past') :
    announcedIn (during id past) <+: announcedIn (during id past') :=
  ((h.filter _).flatMap _).filterMap _

/-- A description that was announced in a session was made by the link of its connection. -/
theorem mem_created (hd : d ∈ announcedIn (during id past)) : (id, d) ∈ created past := by
  obtain ⟨message, hmessage, hsome⟩ := List.mem_filterMap.mp hd
  obtain ⟨m, hm, hwritten⟩ := List.mem_flatMap.mp hmessage
  obtain ⟨hpast, hduring⟩ := List.mem_filter.mp hm
  have hannounced : d ∈ m.before.announced m.event :=
    List.mem_filterMap.mpr ⟨message, hwritten, hsome⟩
  obtain ⟨l, hl, hevent, -⟩ := mem_announced hannounced
  obtain rfl : l.id = id := by simpa [Moment.isDuring, hl] using hduring
  exact List.mem_filterMap.mpr ⟨m, hpast, by rw [hevent]; rfl⟩

/-- The offer that the live connection is about to answer. -/
theorem Ran.offer_of_phase (h : Ran settings past a) {l : Live} (hl : a.live = some l)
    (hphase : a.call.phase = .haveRemoteOffer) :
    ownOf l.id past = [] ∧ ∃ offer ∈ givenTo l.id past, offer.kind = .offer := by
  obtain ⟨hexchange, -⟩ := h.negotiated.live l hl
  refine ⟨hexchange.ownDescriptions_eq_nil (Or.inr hphase), ?_⟩
  rw [hphase] at hexchange
  unfold givenTo
  generalize exchanged l.id (effectsOf past) = done at hexchange
  cases hexchange with
  | haveRemoteOffer hoffer =>
    refine ⟨_, ?_, hoffer⟩
    cases a.call.isCaller <;>
      simp [peerDescriptions, preamble, List.filterMap_cons, Operation.setRemote?]

/-- A connection that announces an answer has been given an offer before. -/
theorem Ran.exists_offer (h : Ran settings past a) (hd : d ∈ announcedIn (during id past))
    (hkind : d.kind = .answer) : ∃ offer ∈ givenTo id past, offer.kind = .offer := by
  obtain ⟨script, rfl, -⟩ := h
  induction script using List.reverseRecOn with
  | nil => simp [history, during, announcedIn, writtenIn] at hd
  | append_singleton script input ih =>
    obtain ⟨event, r⟩ := input
    rw [history_concat] at hd ⊢
    have hmore : (∃ offer ∈ givenTo id (history settings script {}), offer.kind = .offer) →
        ∃ offer ∈ givenTo id (history settings script {} ++
          [(run settings script {}).1.moment settings event r]), offer.kind = .offer := by
      rintro ⟨offer, hoffer, hkind⟩
      exact ⟨offer, (givenTo_mono (List.prefix_append _ _)).subset hoffer, hkind⟩
    refine hmore ?_
    rw [during_append] at hd
    split_ifs at hd with hid
    · rw [announcedIn_append] at hd
      rcases List.mem_append.mp hd with hold | hnew
      · exact ih hold
      · obtain ⟨l, hl, hevent, hphase⟩ := mem_announced hnew
        obtain rfl : l.id = id := by simpa [hl] using hid
        exact (Ran.offer_of_phase ⟨script, rfl, rfl⟩ hl (hphase hkind)).2
    · rw [List.append_nil] at hd
      exact ih hd

/-! ## From a step back to the one before -/

/-- A connection that has been given something was live before if it is live now. -/
theorem Ran.live_of_given (h : Ran settings past a) {l' : Live}
    (hl' : (a.step settings r event).1.live = some l') (hd : d ∈ givenTo l'.id past) :
    ∃ l, a.live = some l ∧ l'.id = l.id := by
  have hstride : Stride settings r a event _ := step_stride h.coherent event
  cases hstride.passage h.coherent with
  | rests _ hnone | ends _ hnone => simp [hnone] at hl'
  | begins _ hlive =>
    obtain rfl : { id := a.issued + 1 } = l' := Option.some.inj (hlive.symm.trans hl')
    have hfresh : submitted (a.issued + 1) (effectsOf past) = [] :=
      h.submitted_fresh (Nat.lt_succ_self _)
    simp [givenTo, exchanged_of_submitted hfresh, peerDescriptions] at hd
  | goesOn hl => exact ⟨_, hl, hstride.id_eq h.coherent hl hl'⟩

/-- A description that a connection has been given came before this step, or in a message that
this step has heard. -/
theorem Ran.given_back (h : Ran settings past a)
    (hd : d ∈ givenTo id (past ++ [a.moment settings event r])) :
    d ∈ givenTo id past ∨ a.Given event id d := by
  have hstride : Stride settings r a event _ := step_stride h.coherent event
  rw [givenTo_append] at hd
  rcases List.mem_append.mp hd with hold | hnew
  · exact Or.inl hold
  · obtain ⟨operation, hoperation, hsome⟩ := List.mem_filterMap.mp hnew
    obtain rfl : operation = .setRemote d := by
      cases operation <;> simp_all [Operation.setRemote?]
    exact Or.inr (hstride.given (List.mem_filter.mp hoperation).1)

/-- Where an answer waits or is announced, the offer that it answers was there before. -/
theorem Ran.offer_back (h : Ran settings past a) {l : Live} {offer answer : Description}
    (hl : a.live = some l) (hkind : answer.kind = .answer)
    (hanswer : (Message.description answer).encode ∈ a.call.outbox ∨
      (Message.description answer).encode ∈ a.queued event)
    (hoffer : offer ∈ givenTo l.id (past ++ [a.moment settings event r])) :
    offer ∈ givenTo l.id past ∧
      ((Message.description answer).encode ∈ a.call.outbox ∨ ownOf l.id past = []) := by
  have honly {other : Description} (hother : other ∈ givenTo l.id past) :
      offer ∈ givenTo l.id past := by
    have hmore := (givenTo_mono (List.prefix_append past [a.moment settings event r])).subset hother
    rwa [(h.step event r).givenTo_unique hoffer hmore]
  rcases hanswer with hwaits | hqueued
  · obtain ⟨message, hmessage, hencode⟩ := h.outbox_written hl hwaits
    obtain rfl := Message.encode_injective hencode
    have hannounced : answer ∈ announcedIn (during l.id past) :=
      List.mem_filterMap.mpr ⟨_, hmessage, rfl⟩
    obtain ⟨other, hother, -⟩ := h.exists_offer hannounced hkind
    exact ⟨honly hother, Or.inl hwaits⟩
  · rw [queued_eq_map] at hqueued
    obtain ⟨message, hmessage, hencode⟩ := List.mem_map.mp hqueued
    obtain rfl := Message.encode_injective hencode
    obtain ⟨l', hl', ⟨c, hc⟩ | ⟨d, hd, hevent, hphase⟩⟩ := mem_written hmessage
    · cases hc
    · obtain rfl := Message.description.inj hd
      obtain ⟨hown, other, hother, -⟩ := h.offer_of_phase hl (hphase hkind)
      exact ⟨honly hother, Or.inr hown⟩

/-- What waits in the outbox after a step waited there before, or was added by the event. -/
theorem Ran.outbox_back (h : Ran settings past a) {l' : Live}
    (hl' : (a.step settings r event).1.live = some l')
    (htext : text ∈ (a.step settings r event).1.call.outbox) :
    ∃ l, a.live = some l ∧ l'.id = l.id ∧
      (text ∈ a.call.outbox ∨ text ∈ a.queued event) := by
  have ha := h.coherent
  have hstride : Stride settings r a event _ := step_stride ha event
  cases hstride.passage ha with
  | rests _ hnone | ends _ hnone => simp [hnone] at hl'
  | begins _ _ houtbox => simp [houtbox] at htext
  | goesOn hl =>
    refine ⟨_, hl, hstride.id_eq ha hl hl', List.mem_append.mp ?_⟩
    cases hstride.posts ha with
    | silent hnone => simp [hnone] at hl
    | hangsUp _ hnone | ends _ hnone => simp [hnone] at hl'
    | goesOn _ _ _ hsends =>
      rw [← hsends.delivered_append]
      exact List.mem_append_right _ htext

/-- A connection is given a description only by a message that holds it. -/
theorem Ran.exists_message (h : Ran settings past a) (hd : d ∈ givenTo id past) :
    ∃ m ∈ past, ∃ peer text, m.event = .bus (.message peer text) ∧
      Message.decode text = .ok (.description d) := by
  obtain ⟨script, rfl, -⟩ := h
  induction script using List.reverseRecOn with
  | nil => simp [history, givenTo, effectsOf, exchanged, submitted, peerDescriptions] at hd
  | append_singleton script input ih =>
    obtain ⟨event, r⟩ := input
    rw [history_concat] at hd ⊢
    have hran : Ran settings (history settings script {}) (run settings script {}).1 :=
      ⟨script, rfl, rfl⟩
    rcases hran.given_back hd with hold | hnew
    · obtain ⟨m, hm, hmessage⟩ := ih hold
      exact ⟨m, List.mem_append_left _ hm, hmessage⟩
    · exact ⟨_, List.mem_append_right _ (List.mem_singleton_self _), hnew.message⟩

/-- Only a connection that was begun has announced anything. -/
theorem Ran.le_issued (h : Ran settings past a) (hd : d ∈ announcedIn (during id past)) :
    id ≤ a.issued := by
  by_contra hlater
  rw [h.sorted.fresh id (Nat.lt_of_not_le hlater)] at hd
  simp [announcedIn, writtenIn] at hd

end Agent

end PeerCall
