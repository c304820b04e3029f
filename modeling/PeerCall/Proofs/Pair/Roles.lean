import PeerCall.Proofs.Pair.Answers

/-!
# Who offers and who answers

Both sides of a pair may call at once, and their offers may cross at any time. Yet when both are
connected, each has applied what the other has made, so one of them has made the offer and the
other one the answer. A side whose offer has gone out never applies the offer of the other side.
-/

namespace PeerCall

/-- A complete exchange has one description of each side, and they are of different kinds. -/
theorem Exchange.exists_of_connected {isCaller : Bool} {done : List Operation}
    (h : Exchange isCaller .connected done) :
    ∃ own other, ownDescriptions done = [own] ∧ peerDescriptions done = [other] ∧
      own.kind ≠ other.kind := by
  cases h with
  | @answered offer answer _ hoffer hanswer =>
    exact ⟨offer, answer, rfl, rfl, by simp [hoffer, hanswer]⟩
  | @accepted offer answer hoffer hanswer =>
    exact ⟨answer, offer, by cases isCaller <;> rfl, by cases isCaller <;> rfl,
      by simp [hoffer, hanswer]⟩

namespace Agent

variable {settings : Settings} {a : Agent} {past : List Moment} {id : ConnId} {d : Description}

/-- Connections are numbered from one. -/
theorem Session.pos {steps : List Moment} (h : Session settings id steps a) : 0 < id := by
  induction h with
  | @begins a event r ha hl hlive =>
    have hstride : Stride settings r a event _ := step_stride ha event
    cases hstride.passage ha with
    | begins _ hbegun =>
      obtain rfl : a.issued + 1 = id := congrArg Live.id (Option.some.inj (hbegun.symm.trans hlive))
      exact Nat.succ_pos _
    | rests _ hnone | ends _ hnone => simp [hlive] at hnone
    | goesOn hsome => simp [hl] at hsome
  | goesOn _ _ ih => exact ih

/-- An agent that has begun one call at most has announced descriptions on one connection only,
the first. -/
theorem Ran.eq_one (h : Ran settings past a) (honce : a.issued ≤ 1)
    (hd : d ∈ announcedIn (during id past)) : id = 1 := by
  have hle : id ≤ a.issued := h.le_issued hd
  have hpos : 0 < id := by
    by_cases hid : a.live.map (·.id) = some id
    · obtain ⟨l, hl, rfl⟩ := Option.map_eq_some_iff.mp hid
      exact (h.sorted.live l hl).pos
    · rcases h.sorted.ended id hid with hnone | ⟨b, -, hsession⟩
      · simp [hnone, announcedIn, writtenIn] at hd
      · exact hsession.pos
  exact Nat.le_antisymm (Nat.le_trans hle honce) hpos

/-- The connection of an agent that has begun one call at most is the first. -/
theorem Ran.live_eq_one (h : Ran settings past a) (honce : a.issued ≤ 1) {l : Live}
    (hl : a.live = some l) : l.id = 1 := by
  have hle : l.id ≤ 1 := (h.coherent.id_eq_issued l hl).trans_le honce
  exact Nat.le_antisymm hle (h.sorted.live l hl).pos

/-- The connection of a call that stands has been given one description of each side, and this
side has announced no other. -/
theorem Ran.exists_descriptions (h : Ran settings past a) {l : Live} (hl : a.live = some l)
    (hphase : a.call.phase = .connected) :
    ∃ own other, ownOf l.id past = [own] ∧ givenTo l.id past = [other] ∧
      announcedIn (during l.id past) = [own] ∧ own.kind ≠ other.kind := by
  obtain ⟨hexchange, hannounced⟩ := h.negotiated.live l hl
  rw [hphase] at hexchange
  obtain ⟨own, other, hown, hother, hkind⟩ := hexchange.exists_of_connected
  exact ⟨own, other, hown, hother, hannounced.trans hown, hkind⟩

end Agent

namespace Pair

open Agent (created givenTo ownOf announcedIn during)

variable {parties : Parties} {p : Pair} {s : Side} {d : Description}

/-- All that a side has ever sent, it has said. -/
theorem said_of_ran {past : List Agent.Moment} {a : Agent} {text : String}
    (h : Agent.Ran (parties.settings s) past a) (htext : text ∈ sentIn parties s past) :
    Said parties s past text := by
  obtain ⟨script, rfl, -⟩ := h
  induction script using List.reverseRecOn with
  | nil => simp [Agent.history, sentIn] at htext
  | append_singleton script input ih =>
    obtain ⟨event, r⟩ := input
    rw [Agent.history_concat] at htext ⊢
    rw [sentIn, List.flatMap_append, List.flatMap_singleton] at htext
    rcases List.mem_append.mp htext with hold | hnew
    · exact (ih hold).mono (List.prefix_append _ _)
    · exact said_of_sent ⟨script, rfl, rfl⟩ hnew

/-- The sides agree on their parts: the caller has made the offer and the other side the answer,
and the only connection of each has been given both. -/
structure Agreed (parties : Parties) (p : Pair) (caller : Side) (offer answer : Description) :
    Prop where
  live : ∀ s, (p.agent s).live.map (·.id) = some 1
  offer_kind : offer.kind = .offer
  answer_kind : answer.kind = .answer
  caller_own : ownOf 1 (p.past caller) = [offer]
  caller_given : givenTo 1 (p.past caller) = [answer]
  callee_own : ownOf 1 (p.past caller.other) = [answer]
  callee_given : givenTo 1 (p.past caller.other) = [offer]
  /-- The side that was given an offer has sent none. -/
  uncrossed : ∀ d : Description, d.kind = .offer →
    (Message.description d).encode ∉ sentIn parties caller.other (p.past caller.other)

/-- What a side of a call that stands has made and been given, on its first and only connection. -/
structure Settled (p : Pair) (s : Side) (own other : Description) : Prop where
  live : (p.agent s).live.map (·.id) = some 1
  own_eq : ownOf 1 (p.past s) = [own]
  given_eq : givenTo 1 (p.past s) = [other]
  announced_eq : ∀ id, ∀ d ∈ announcedIn (during id (p.past s)), d = own
  kind_ne : own.kind ≠ other.kind

/-- A side that has begun one call at most and stands in it is settled. -/
theorem Sound.exists_settled (h : Sound parties p) (honce : (p.agent s).issued ≤ 1)
    (hphase : (p.agent s).call.phase = .connected) : ∃ own other, Settled p s own other := by
  have hran := h.ran s
  obtain ⟨l, -, hl, -⟩ := hran.coherent.live_of_phase (by rw [hphase]; rfl)
  have hid : l.id = 1 := hran.live_eq_one honce hl
  obtain ⟨own, other, hown, hgiven, hannounced, hkind⟩ := hran.exists_descriptions hl hphase
  rw [hid] at hown hgiven hannounced
  refine ⟨own, other, by simp [hl, hid], hown, hgiven, fun id d hd => ?_, hkind⟩
  rw [hran.eq_one honce hd, hannounced] at hd
  exact List.mem_singleton.mp hd

/-- What one side has been given is what the other side has made. -/
theorem Settled.given_made {own other own' other' : Description} (hsound : Sound parties p)
    (h : Settled p s own other) (h' : Settled p s.other own' other') : other = own' := by
  have hgiven : other ∈ givenTo 1 (p.past s) := by
    rw [h.given_eq]
    exact List.mem_singleton_self _
  obtain ⟨id, hannounced, -⟩ := hsound.exists_announced hgiven
  exact h'.announced_eq id other hannounced

/-- A side has sent no description but the one that it has made. -/
theorem Settled.sent_eq {own other : Description} (hsound : Sound parties p)
    (h : Settled p s own other)
    (hsent : (Message.description d).encode ∈ sentIn parties s (p.past s)) : d = own := by
  obtain ⟨id, hannounced, -⟩ := (said_of_ran (hsound.ran s) hsent).announced
  exact h.announced_eq id d hannounced

/-- Two sides that are settled agree. -/
theorem Settled.agreed {offer answer : Description} (hsound : Sound parties p)
    (hcaller : Settled p s offer answer) (hcallee : Settled p s.other answer offer)
    (hkind : offer.kind = .offer) : Agreed parties p s offer answer := by
  have hanswer : answer.kind = .answer := by
    have hne := hcaller.kind_ne
    cases h : answer.kind <;> simp_all
  refine ⟨fun t => ?_, hkind, hanswer, hcaller.own_eq, hcaller.given_eq, hcallee.own_eq,
    hcallee.given_eq, fun d hd hsent => ?_⟩
  · rcases s.eq_or_eq_other t with rfl | rfl
    · exact hcaller.live
    · exact hcallee.live
  · obtain rfl := hcallee.sent_eq hsound hsent
    simp [hd] at hanswer

/-- If each side has begun one call at most and both are connected, they agree on who offers and
who answers, also if both have called. -/
theorem run_agreed (h : Reachable parties p) (honce : ∀ s, (p.agent s).issued ≤ 1)
    (hconnected : ∀ s, (p.agent s).call.phase = .connected) :
    ∃ caller offer answer, Agreed parties p caller offer answer := by
  have hsound := h.sound
  obtain ⟨own, other, hnear⟩ := hsound.exists_settled (honce .near) (hconnected .near)
  obtain ⟨own', other', hfar⟩ := hsound.exists_settled (honce .far) (hconnected .far)
  obtain rfl : other = own' := hnear.given_made hsound hfar
  obtain rfl : other' = own := hfar.given_made hsound hnear
  cases hkind : other'.kind with
  | offer => exact ⟨.near, other', other, hnear.agreed hsound hfar hkind⟩
  | answer =>
    have hoffer : other.kind = .offer := by
      have hne := hnear.kind_ne
      cases h : other.kind <;> simp_all
    exact ⟨.far, other, other', hfar.agreed hsound hnear hoffer⟩

/-- Both sides call. The offer of the one comes to the other while it is making its own, and this
own offer is ready too late. -/
def callBoth : List Move :=
  [.turn .near (.command (.connect "bob")) {},
    .turn .far (.command (.connect "alice")) {},
    .turn .near (.outcome 1 (.localReady ⟨.offer, "first"⟩)) {},
    .deliver .far {},
    .turn .far (.outcome 1 (.localReady ⟨.offer, "second"⟩)) {},
    .turn .far (.outcome 1 (.remoteApplied .offer)) {},
    .turn .far (.outcome 1 (.localReady ⟨.answer, "reply"⟩)) {},
    .deliver .near {}]

/-- Two offers have been made, and still both sides agree. -/
theorem agreed_callBoth :
    ∃ p, performAll aliceAndBob {} callBoth = some p ∧ (∀ s, (p.agent s).issued ≤ 1) ∧
      (∀ s, (p.agent s).call.phase = .connected) ∧
      created (p.past .far) = [(1, ⟨.offer, "second"⟩), (1, ⟨.answer, "reply"⟩)] ∧
      ∃ caller offer answer, Agreed aliceAndBob p caller offer answer := by
  have hrun : (performAll aliceAndBob {} callBoth).map (fun p =>
      ([Side.near, .far].map fun s => ((p.agent s).issued, (p.agent s).call.phase),
        created (p.past .far))) =
      some ([(1, .connected), (1, .connected)],
        [(1, ⟨.offer, "second"⟩), (1, ⟨.answer, "reply"⟩)]) := by
    decide +kernel
  obtain ⟨p, hp, hall⟩ := Option.map_eq_some_iff.mp hrun
  simp only [List.map_cons, List.map_nil, List.cons.injEq, Prod.mk.injEq, and_true] at hall
  obtain ⟨⟨⟨hnear, hnear'⟩, hfar, hfar'⟩, hcreated⟩ := hall
  have honce (s : Side) : (p.agent s).issued ≤ 1 := by
    cases s
    · exact Nat.le_of_eq hnear
    · exact Nat.le_of_eq hfar
  have hconnected (s : Side) : (p.agent s).call.phase = .connected := by
    cases s
    · exact hnear'
    · exact hfar'
  exact ⟨p, hp, honce, hconnected, hcreated,
    run_agreed (leads_of_performAll hp) honce hconnected⟩

end Pair

end PeerCall
