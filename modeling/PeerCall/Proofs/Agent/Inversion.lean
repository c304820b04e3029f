import PeerCall.Proofs.Agent.Stride

/-!
# Every step is a stride

Each handler of a coherent agent is computed once. What its branches do is read off and matched
with the strides, so that the theorem at the end covers every event.
-/

namespace PeerCall.Agent

variable {settings : Settings} {r : Replies} {a : Agent}

/-- The agent as soon as it has a new connection. -/
def begun (peer : String) (isCaller : Bool) (a : Agent) : Agent :=
  { a with
    call := { peer := some peer, phase := .connecting, isCaller := isCaller }
    live := some { id := a.issued + 1 }
    issued := a.issued + 1 }

/-- Begins a call, and accepts the offer that it answers if there is one. -/
def openCall (r : Replies) (peer : String) (a : Agent) : Option Description → Turn
  | none => a.startCall r peer true
  | some offer => (a.startCall r peer false).andThen (acceptOffer r offer)

/-- Without a connection a new call stops at once, so that an offer is not even looked at. -/
theorem openCall_of_error {peer : String} {offer : Option Description} {error : LinkError}
    (hl : a.live = none) (hcall : a.call = {}) (hreply : r.create = some error) :
    a.openCall r peer offer =
      (({ a.begun peer offer.isNone with live := none }).fail (.fatal error)).after
        [.notify (.phase .connecting), .create (a.issued + 1) (some error)] := by
  have hstart (isCaller : Bool) : a.startCall r peer isCaller =
      (({ a.begun peer isCaller with live := none }).fail (.fatal error)).after
        [.notify (.phase .connecting), .create (a.issued + 1) (some error)] := by
    simp [startCall, enter, hreply, hcall, hl, Call.begin, begun, Turn.after, emit, fail,
      Turn.andThen]
  cases offer <;> simp [openCall, hstart]

/-- With a connection a new call goes on to its first operations. -/
theorem openCall_of_created {peer : String} {offer : Option Description}
    (hcall : a.call = {}) (hreply : r.create = none) :
    a.openCall r peer offer =
      (((a.begun peer offer.isNone).submitAll r (openingOperations offer)).andThen fun b =>
        if offer.isSome then b.enter .haveRemoteOffer else b.emit []).after
        [.notify (.phase .connecting), .create (a.issued + 1) none] := by
  have hstart (isCaller : Bool) : a.startCall r peer isCaller =
      (if isCaller then (a.begun peer isCaller).submit r .createOffer
        else (a.begun peer isCaller).emit []).after
        [.notify (.phase .connecting), .create (a.issued + 1) none] := by
    simp [startCall, enter, hreply, hcall, Call.begin, begun]
  cases offer with
  | none =>
    rcases submitAll_eq (a := a.begun peer true) (r := r) rfl [.createOffer] with
      ⟨-, hall⟩ | ⟨taken, refused, left, -, -, hbroken⟩
    · simp [openCall, hstart, submit_eq_submitAll, openingOperations, hall]
    · simp [openCall, hstart, submit_eq_submitAll, openingOperations, hbroken]
  | some offer => simp [openCall, hstart, openingOperations, acceptOffer]

/-- An event that begins a call takes one of the three strides that do so. -/
theorem stride_openCall {event : Event} {peer : String} {offer : Option Description}
    (ha : a.Coherent) (hphase : a.call.phase = .idle)
    (hopening : a.opening settings event = some (peer, offer)) :
    Stride settings r a event (finish (a.openCall r peer offer)) := by
  obtain ⟨hl, hpolled, hcall⟩ := ha.fresh_of_idle hphase
  cases hreply : r.create with
  | some error =>
    rw [openCall_of_error hl hcall hreply, finish_after, finish_fatal rfl]
    have h := Stride.notCreated (r := r) hphase hopening hreply
    simpa [parting, begun, freed, hl, hpolled, hcall] using h
  | none =>
    rw [openCall_of_created hcall hreply, finish_after]
    rcases submitAll_eq (a := a.begun peer offer.isNone) (r := r) rfl (openingOperations offer)
      with ⟨htakes, hall⟩ | ⟨taken, refused, left, hsplit, hdead, hbroken⟩
    · rw [hall]
      have h := Stride.opened (r := r) hphase hopening hreply htakes
      cases offer <;> simpa [opened, begun, enter] using h
    · rw [hbroken, after_andThen, fail_andThen, finish_after, finish_fatal rfl]
      have h := Stride.notOpened (r := r) hphase hopening hreply hsplit hdead
      simpa [parting, opened, begun, freed, hl, hpolled, hcall] using h

/-- Doing nothing at all is a quiet stride, -/
theorem stride_still {event : Event} (hignores : a.Ignores settings event) :
    Stride settings r a event (a, []) :=
  @Stride.quiet settings r a event [] hignores

/-- and so is a single warning, -/
theorem stride_warned {event : Event} {warning : Warning} (hignores : a.Ignores settings event) :
    Stride settings r a event (a, [.warn warning]) :=
  @Stride.quiet settings r a event [warning] hignores

/-- in particular that an event has no place in the phase. -/
theorem stride_unexpected {event : Event} {what : String} (hignores : a.Ignores settings event) :
    Stride settings r a event (finish (a.unexpected what)) :=
  stride_warned hignores

/-- A state of the link other than the two that end a call does not have to be heeded, -/
theorem ignores_linkState {id : ConnId} {state : LinkState} (hfailed : state ≠ .failed)
    (hclosed : state ≠ .closed) : a.Ignores settings (.link id (.state state)) := by
  refine ⟨fun l peer _ _ hheeded => ?_, fun _ _ => rfl⟩
  cases hheeded with
  | asked hasks => cases hasks
  | failure hfailure =>
    cases hfailure
    exact hfailed rfl
  | leaving hleaves =>
    cases hleaves
    exact hclosed rfl

/-- nor does the outcome of an operation that neither brings a description, nor applies that of
the peer, nor has failed. -/
theorem ignores_outcome {id : ConnId} {outcome : Outcome} (hready : ∀ d, outcome ≠ .localReady d)
    (happlied : ∀ kind, outcome ≠ .remoteApplied kind)
    (hfailed : ∀ kind error, outcome ≠ .failed kind error) :
    a.Ignores settings (.outcome id outcome) := by
  refine ⟨fun l peer _ _ hheeded => ?_, fun _ _ => rfl⟩
  cases hheeded with
  | asked hasks =>
    cases hasks with
    | localOffer | localAnswer => exact hready _ rfl
    | release => exact happlied _ rfl
  | failure hfailure =>
    cases hfailure
    exact hfailed _ _ rfl
  | leaving hleaves => cases hleaves

/-- Without a connection only the events that begin a call have to be heeded. -/
theorem ignores_of_free {event : Event} (hl : a.live = none)
    (hopening : a.isRunning = true → a.call.phase = .idle → a.opening settings event = none) :
    a.Ignores settings event := by
  refine ⟨fun l peer h => ?_, hopening⟩
  simp [hl] at h

/-- A message without meaning does not have to be heeded, -/
theorem ignores_of_undecoded {peer text : String} {error : Message.DecodeError}
    (hdecode : Message.decode text = .error error) :
    a.Ignores settings (.bus (.message peer text)) := by
  refine ⟨fun l q _ _ hheeded => ?_, fun _ _ => by simp [opening, hdecode]⟩
  cases hheeded with
  | candidate h => simp [hdecode] at h
  | asked hasks =>
    cases hasks with
    | offer h | answer h | candidate h => simp [hdecode] at h
  | failure hfailure => cases hfailure
  | leaving hleaves =>
    cases hleaves with
    | bye h => simp [hdecode] at h

/-- nor does a message of someone else during a call. -/
theorem ignores_of_other {peer text : String} (hphase : a.call.phase ≠ .idle)
    (hother : a.call.peer ≠ some peer) : a.Ignores settings (.bus (.message peer text)) := by
  refine ⟨fun l q _ hpeer hheeded => ?_, fun _ h => absurd h hphase⟩
  cases hheeded with
  | candidate => exact hother hpeer
  | asked hasks => cases hasks <;> exact hother hpeer
  | failure hfailure => cases hfailure
  | leaving hleaves => cases hleaves; exact hother hpeer

/-- A description that does not fit the phase does not have to be heeded. -/
theorem ignores_of_description {peer text : String} {d : Description}
    (hdecode : Message.decode text = .ok (.description d))
    (hidle : a.call.phase = .idle → d.kind ≠ .offer)
    (hconnecting : a.call.phase = .connecting → d.kind ≠ .offer)
    (hoffered : a.call.phase = .haveLocalOffer → d.kind ≠ .answer) :
    a.Ignores settings (.bus (.message peer text)) := by
  have hsame {d' : Description} (h : Message.decode text = .ok (.description d')) : d' = d := by
    simpa using h.symm.trans hdecode
  refine ⟨fun l q _ _ hheeded => ?_, fun _ hphase => by simp [opening, hdecode, hidle hphase]⟩
  cases hheeded with
  | candidate h => simp [hdecode] at h
  | asked hasks =>
    cases hasks with
    | offer h hphase hkind => exact hconnecting hphase (hsame h ▸ hkind)
    | answer h hphase hkind => exact hoffered hphase (hsame h ▸ hkind)
    | candidate h => simp [hdecode] at h
  | failure hfailure => cases hfailure
  | leaving hleaves =>
    cases hleaves with
    | bye h => simp [hdecode] at h

/-- Commands that hang up have to be heeded, others only if they begin a call. -/
theorem ignores_command {command : Command}
    (hcommand : command ≠ .disconnect ∧ command ≠ .close ∧ command ≠ .shutdown)
    (hopening : a.call.phase = .idle → a.opening settings (.command command) = none) :
    a.Ignores settings (.command command) := by
  refine ⟨fun l peer _ _ hheeded => ?_, fun _ => hopening⟩
  cases hheeded with
  | asked hasks => cases hasks
  | failure hfailure => cases hfailure
  | leaving hleaves => cases hleaves
  | hangUp hends =>
    rcases hends with rfl | rfl | rfl
    · exact hcommand.1 rfl
    · exact hcommand.2.1 rfl
    · exact hcommand.2.2 rfl

/-- Records never have to be heeded. -/
theorem ignores_records {id : ConnId} {records : List Metrics.Record} :
    a.Ignores settings (.records id records) := by
  refine ⟨fun l peer _ _ hheeded => ?_, fun _ _ => rfl⟩
  cases hheeded with
  | asked hasks => cases hasks
  | failure hfailure => cases hfailure
  | leaving hleaves => cases hleaves

/-- Operations that an event asks for are handed over, or break the call. -/
theorem stride_submitAll {l l' : Live} {peer : String} {event : Event}
    {operations : List Operation} {b : Agent} {next : Agent → Turn} (hl : a.live = some l)
    (hpeer : a.call.peer = some peer) (hasks : Asks a l peer event operations)
    (hb : b.live = some l') (hid : l'.id = l.id) (hfreed : b.freed = a.freed)
    (hpolled : b.polled = a.polled) (hphase : b.call.phase.isLive = true)
    (hdone : r.Takes l.id operations.length → Stride settings r a event
      (finish ((next b).after (operations.map (.submit l.id))))) :
    Stride settings r a event (finish ((b.submitAll r operations).andThen next)) := by
  rcases submitAll_eq (r := r) hb operations with
    ⟨htakes, hall⟩ | ⟨taken, refused, left, hsplit, hdead, hbroken⟩
  · rw [hid] at htakes
    simpa [hall, hid] using hdone htakes
  · rw [hid] at hdead
    rw [hbroken, after_andThen, fail_andThen, finish_after, finish_fatal hphase, hfreed, hid]
    have h : Stride settings r a event _ := .broken hl hpeer (hsplit ▸ hasks) hdead
    simpa [parting, hb, hl, hid, hpolled] using h

/-- The offer of the peer to an agent that calls it. -/
theorem stride_acceptOffer {l : Live} {peer text : String} {d : Description}
    (hl : a.live = some l) (hpeer : a.call.peer = some peer)
    (hdecode : Message.decode text = .ok (.description d))
    (hphase : a.call.phase = .connecting) (hkind : d.kind = .offer) :
    Stride settings r a (.bus (.message peer text)) (finish (a.acceptOffer r d)) := by
  refine stride_submitAll hl hpeer (.offer hdecode hphase hkind) hl rfl rfl rfl
    (by simp [hphase, Phase.isLive]) fun htakes => ?_
  simpa [enter, hphase] using Stride.offerAccepted hl hpeer hdecode hphase hkind htakes

/-- The answer to the offer of this side. -/
theorem stride_answer {l : Live} {peer text : String} {d : Description}
    (hl : a.live = some l) (hpeer : a.call.peer = some peer)
    (hdecode : Message.decode text = .ok (.description d))
    (hphase : a.call.phase = .haveLocalOffer) (hkind : d.kind = .answer) :
    Stride settings r a (.bus (.message peer text))
      (finish ((a.submit r (.setRemote d)).andThen enterConnected)) := by
  rw [submit_eq_submitAll]
  refine stride_submitAll hl hpeer (.answer hdecode hphase hkind) hl rfl rfl rfl
    (by simp [hphase, Phase.isLive]) fun htakes => ?_
  simpa [enterConnected, enter, hphase, hl] using
    Stride.answerAccepted hl hpeer hdecode hphase hkind htakes

/-- Any description of the peer. -/
theorem stride_onRemoteDescription {peer text : String} {d : Description} (ha : a.Coherent)
    (hheard : a.call.phase = .idle ∨ a.call.peer = some peer)
    (hdecode : Message.decode text = .ok (.description d)) :
    Stride settings r a (.bus (.message peer text))
      (finish (a.onRemoteDescription r peer d)) := by
  unfold onRemoteDescription
  split
  · next hphase hkind =>
    have hopening : a.opening settings (.bus (.message peer text)) = some (peer, some d) := by
      simp [opening, hdecode, hkind]
    exact stride_openCall ha hphase hopening
  · next hphase hkind =>
    obtain ⟨l, q, hl, hq⟩ := ha.live_of_phase (by simp [hphase, Phase.isLive])
    have hpeer : a.call.peer = some peer := by simpa [hphase] using hheard
    exact stride_acceptOffer hl hpeer hdecode hphase hkind
  · next hphase hkind =>
    obtain ⟨l, q, hl, hq⟩ := ha.live_of_phase (by simp [hphase, Phase.isLive])
    have hpeer : a.call.peer = some peer := by simpa [hphase] using hheard
    exact stride_answer hl hpeer hdecode hphase hkind
  all_goals exact stride_unexpected (ignores_of_description hdecode (by simp_all) (by simp_all)
    (by simp_all))

/-- A candidate of the peer. -/
theorem stride_onRemoteCandidate {peer text : String} {c : Candidate} (ha : a.Coherent)
    (hheard : a.call.phase = .idle ∨ a.call.peer = some peer)
    (hdecode : Message.decode text = .ok (.candidate c)) :
    Stride settings r a (.bus (.message peer text)) (finish (a.onRemoteCandidate r c)) := by
  unfold onRemoteCandidate
  split
  · next l hphase hl =>
    have hpeer : a.call.peer = some peer := by
      rcases hheard with hidle | hpeer
      · simp [hidle, Phase.isLive] at hphase
      · exact hpeer
    cases hset : l.remote.isRemoteSet with
    | true =>
      have hself : { a with live := some l } = a := by rw [← hl]
      simp only [CandidateBuffer.receive, hset, if_true, hself]
      rw [submit_eq_submitAll, ← andThen_emit_nil (a.submitAll r _)]
      refine stride_submitAll hl hpeer (.candidate hdecode hset) hl rfl rfl rfl hphase
        fun htakes => ?_
      simpa using Stride.candidatePassed hl hpeer hdecode hset htakes
    | false =>
      have h : Stride settings r a _ _ := .candidateKept hl hpeer hdecode hset
      simpa [CandidateBuffer.receive, hset] using h
  · next hnone =>
    have hl : a.live = none := by
      rcases Option.eq_none_or_eq_some a.live with hl | ⟨l, hl⟩
      · exact hl
      · exact absurd hl (hnone l (ha.call_of_live hl).1)
    exact stride_unexpected (ignores_of_free hl fun _ _ => by simp [opening, hdecode])

/-- Any message. -/
theorem stride_onMessage {peer text : String} (ha : a.Coherent) :
    Stride settings r a (.bus (.message peer text)) (finish (a.onMessage r peer text)) := by
  unfold onMessage
  cases hdecode : Message.decode text with
  | error error => exact stride_warned (ignores_of_undecoded hdecode)
  | ok message =>
    by_cases hother : a.call.phase ≠ .idle ∧ ¬a.call.isWith peer = true
    · simp only [if_pos hother]
      refine stride_unexpected (ignores_of_other hother.1 ?_)
      simpa [Call.isWith] using hother.2
    · simp only [if_neg hother]
      have hheard : a.call.phase = .idle ∨ a.call.peer = some peer := by
        rw [Decidable.or_iff_not_imp_left]
        simpa [Call.isWith] using hother
      cases message with
      | description d => exact stride_onRemoteDescription ha hheard hdecode
      | candidate c => exact stride_onRemoteCandidate ha hheard hdecode
      | bye =>
        cases hphase : a.call.phase.isLive with
        | false =>
          have hl := ha.live_eq_none hphase
          exact stride_still (ignores_of_free hl fun _ _ => by simp [opening, hdecode])
        | true =>
          obtain ⟨l, q, hl, hq⟩ := ha.live_of_phase hphase
          have hpeer : a.call.peer = some peer := by
            rcases hheard with hidle | hpeer
            · simp [hidle, Phase.isLive] at hphase
            · exact hpeer
          simp only [if_true, endCall_of_live ha hl, finish_emit]
          exact Stride.left hl hpeer (.bye hdecode)

/-- News of the bus. -/
theorem stride_onBus {news : BusNews} (ha : a.Coherent) :
    Stride settings r a (.bus news) (finish (a.onBus settings r news)) := by
  cases news with
  | signedIn =>
    cases hl : a.live with
    | none =>
      obtain ⟨hpolled, hcall, hphase⟩ := ha.free hl
      have h : Stride settings r a _ _ := .signedIn hl
      rcases hphase with hphase | hphase <;> rw [hphase] at hcall <;>
        simpa [onBus, endSignIn, enter, flush, hcall] using h
    | some l =>
      have hphase : a.call.phase ≠ .awaitingSignIn := by
        intro h
        simpa [h, Phase.isLive] using (ha.call_of_live hl).1
      have h : Stride settings r a _ _ := .signedInDuringCall hl
      simpa [onBus, endSignIn, hphase] using h
  | signInFailed reason =>
    have h : Stride settings r a (.bus (.signInFailed reason)) _ := .signInFailed
    by_cases hphase : a.call.phase = .awaitingSignIn
    · simpa [onBus, endSignIn, enter, hphase] using h
    · simpa [onBus, endSignIn, hphase] using h
  | peerConnected peer =>
    unfold onBus
    by_cases hcall : settings.autocall = true ∧ a.isSignedIn = true ∧ a.call.phase = .idle
    · simp only [if_pos hcall]
      have hopening : a.opening settings (.bus (.peerConnected peer)) = some (peer, none) := by
        simp [opening, hcall]
      exact stride_openCall ha hcall.2.2 hopening
    · simp only [if_neg hcall]
      cases hl : a.live with
      | none =>
        have hpeer : a.call.peer = none := by rw [(ha.free hl).2.1]
        rw [flush_of_no_peer hpeer]
        refine stride_still (ignores_of_free hl fun _ hidle => ?_)
        simpa [opening, hidle] using hcall
      | some l => exact Stride.flushed hl (Or.inr ⟨peer, rfl⟩)
  | peerDisconnected peer =>
    unfold onBus
    by_cases hours : a.call.phase.isLive = true ∧ a.call.isWith peer = true
    · obtain ⟨l, q, hl, hq⟩ := ha.live_of_phase hours.1
      have hpeer : a.call.peer = some peer := by simpa [Call.isWith] using hours.2
      simp only [if_pos hours, endCall_of_live ha hl, finish_emit]
      exact Stride.left hl hpeer .gone
    · simp only [if_neg hours]
      refine stride_still ⟨fun l q hl hq hheeded => ?_, fun _ _ => rfl⟩
      cases hheeded with
      | asked hasks => cases hasks
      | failure hfailure => cases hfailure
      | leaving hleaves =>
        cases hleaves
        exact hours ⟨(ha.call_of_live hl).1, by simp [Call.isWith, hq]⟩
  | message peer text => exact stride_onMessage ha
  | messageSent =>
    cases hl : a.live with
    | none =>
      have hpeer : a.call.peer = none := by rw [(ha.free hl).2.1]
      simp only [onBus, flush_of_no_peer hpeer]
      exact stride_still (ignores_of_free hl fun _ _ => rfl)
    | some l => exact Stride.flushed hl (Or.inl rfl)

/-- News of the live connection. -/
theorem stride_onLink {l : Live} {news : LinkNews} (ha : a.Coherent) (hl : a.live = some l) :
    Stride settings r a (.link l.id news) (finish (a.onLink r news)) := by
  have hphase := (ha.call_of_live hl).1
  cases news with
  | candidate c =>
    have h : Stride settings r a (.link l.id (.candidate c)) _ := .ownCandidate hl
    simpa [onLink, noteOwn, queue, hl] using h
  | state state =>
    cases state with
    | connected =>
      simp only [onLink, onLinkState, finish_emit, hl]
      split
      · exact stride_warned (ignores_linkState (by simp) (by simp))
      · exact stride_still (ignores_linkState (by simp) (by simp))
    | disconnected => exact stride_warned (ignores_linkState (by simp) (by simp))
    | failed =>
      simp only [onLink, onLinkState, finish_fatal hphase]
      exact Stride.failed hl .state
    | closed =>
      simp only [onLink, onLinkState, hphase, if_true, endCall_of_live ha hl, finish_emit]
      obtain ⟨peer, hpeer⟩ := (ha.call_of_live hl).2
      exact Stride.left hl hpeer .linkClosed
    | new | connecting => exact stride_still (ignores_linkState (by simp) (by simp))
  | trackAdded track => exact Stride.trackAdded hl
  | trackRemoved track => exact Stride.trackRemoved hl

/-- A description of this side that fits the phase goes to the peer and to the link. -/
theorem stride_onLocalDescription {l : Live} {peer : String} {d : Description}
    (hl : a.live = some l) (hpeer : a.call.peer = some peer) :
    Stride settings r a (.outcome l.id (.localReady d)) (finish (a.onLocalDescription r d)) := by
  have huse (next : Agent → Turn) : a.useLocal r d next =
      (({ a with call := a.call.push (Message.description d).encode }).submitAll r
        [.setLocal d]).andThen fun b => (next b).andThen (flush r) := by
    simp [useLocal, queue, submit_eq_submitAll]
  unfold onLocalDescription
  split
  · next hphase hkind =>
    rw [huse]
    refine stride_submitAll hl hpeer (.localOffer hphase hkind) hl rfl rfl rfl
      (by simp [Call.push, hphase, Phase.isLive]) fun htakes => ?_
    have h : Stride settings r a _ _ := .offerMade hl hphase hkind htakes
    simpa [enter, Call.push, hphase] using h
  · next hphase hkind =>
    rw [huse]
    refine stride_submitAll hl hpeer (.localAnswer hphase hkind) hl rfl rfl rfl
      (by simp [Call.push, hphase, Phase.isLive]) fun htakes => ?_
    have h : Stride settings r a _ _ := .answerMade hl hphase hkind htakes
    simpa [enterConnected, enter, Call.push, hphase, hl] using h
  all_goals
    refine stride_unexpected ⟨fun m q hm _ hheeded => ?_, fun _ _ => rfl⟩
    obtain rfl : l = m := Option.some.inj (hl.symm.trans hm)
    cases hheeded with
    | asked hasks => cases hasks <;> simp_all
    | failure hfailure => cases hfailure
    | leaving hleaves => cases hleaves

/-- What came of an operation on the live connection. -/
theorem stride_onOutcome {l : Live} {outcome : Outcome} (ha : a.Coherent) (hl : a.live = some l) :
    Stride settings r a (.outcome l.id outcome) (finish (a.onOutcome r outcome)) := by
  obtain ⟨hphase, peer, hpeer⟩ := ha.call_of_live hl
  cases outcome with
  | localReady d =>
    exact stride_onLocalDescription hl hpeer
  | localApplied kind => exact stride_still (ignores_outcome (by simp) (by simp) (by simp))
  | remoteApplied kind =>
    simp only [onOutcome, onRemoteApplied, hl, CandidateBuffer.release]
    rw [← andThen_emit_nil (submitAll r _ _)]
    refine stride_submitAll hl hpeer .release rfl rfl rfl rfl hphase fun htakes => ?_
    rw [List.length_map] at htakes
    have h : Stride settings r a (.outcome l.id (.remoteApplied kind)) _ := .released hl htakes
    simpa [Function.comp_def] using h
  | candidateApplied => exact stride_still (ignores_outcome (by simp) (by simp) (by simp))
  | candidateRejected error => exact stride_warned (ignores_outcome (by simp) (by simp) (by simp))
  | failed kind error =>
    have hturn : a.onOutcome r (.failed kind error) =
        (a.fail (.fatal error)).after [.warn (.operationFailed kind)] := rfl
    rw [hturn, finish_after, finish_fatal hphase]
    exact Stride.failed hl .operation

/-- The command to sign in. -/
theorem stride_signIn : Stride settings r a (.command .signIn) (finish (a.signIn r)) := by
  unfold signIn
  by_cases hready : a.call.phase ≠ .idle ∨ a.isSignedIn = true
  · rw [if_pos hready]
    exact stride_unexpected (ignores_command (by simp) fun _ => rfl)
  · rw [if_neg hready]
    simp only [not_or, Decidable.not_not, Bool.not_eq_true] at hready
    cases hreply : r.signIn with
    | none =>
      have h : Stride settings r a _ _ := .signIn hready.1 hready.2 hreply
      simpa [enter, hready] using h
    | some error =>
      have h : Stride settings r a _ _ := .signInRefused hready.1 hready.2 hreply
      simpa using h

/-- Hanging up during a call says goodbye and frees the agent. -/
theorem hangUp_of_live {l : Live} {peer : String} (ha : a.Coherent) (hl : a.live = some l)
    (hpeer : a.call.peer = some peer) :
    a.hangUp r =
      a.freed.emit (.send peer Message.byeText (r.send 0) :: a.parting none) := by
  simp [hangUp, (ha.call_of_live hl).1, hpeer, endCall_of_live ha hl]

/-- Hanging up without a call does nothing. -/
theorem hangUp_of_free (ha : a.Coherent) (hl : a.live = none) : a.hangUp r = a.emit [] := by
  simp [hangUp, ha.isLive_eq_false hl]

/-- Closing during a call hangs up first. -/
theorem close_of_live {l : Live} {peer : String} (ha : a.Coherent) (hl : a.live = some l)
    (hpeer : a.call.peer = some peer) :
    a.close r = emit { a.freed with isSignedIn := false }
      (.send peer Message.byeText (r.send 0) ::
        (a.parting none ++ if a.isSignedIn then [.signOut] else [])) := by
  cases hsigned : a.isSignedIn <;>
    simp [close, hangUp_of_live ha hl hpeer, freed, enter, hsigned]

/-- Closing without a call takes back a sign-in, also one that is not answered yet. -/
theorem close_of_free (ha : a.Coherent) (hl : a.live = none) :
    a.close r = emit { a with call := {}, isSignedIn := false }
      (if a.call.phase = .awaitingSignIn then [.signOut, .notify (.phase .idle)]
        else if a.isSignedIn then [.signOut] else []) := by
  obtain ⟨-, hcall, hphase⟩ := ha.free hl
  rcases hphase with hphase | hphase <;> rw [hphase] at hcall
  · cases hsigned : a.isSignedIn with
    | true => simp [close, hangUp_of_free ha hl, hcall, enter, hsigned]
    | false =>
      have hself : { a with call := {}, isSignedIn := false } = a := by
        rw [← hcall, ← hsigned]
      simp [close, hangUp_of_free ha hl, hcall, hself, hsigned]
  · simp [close, hangUp_of_free ha hl, hcall, enter]

/-- Commands of the user. -/
theorem stride_onCommand {command : Command} (ha : a.Coherent) (hrun : a.isRunning = true) :
    Stride settings r a (.command command) (finish (a.onCommand r command)) := by
  cases command with
  | signIn => exact stride_signIn
  | connect peer =>
    by_cases hphase : a.call.phase = .idle
    · have hopening : a.opening settings (.command (.connect peer)) = some (peer, none) := rfl
      simpa [onCommand, hphase, openCall] using stride_openCall ha hphase hopening
    · simp only [onCommand, ne_eq, hphase, not_false_eq_true, if_true]
      exact stride_unexpected (ignores_command (by simp) fun hidle => absurd hidle hphase)
  | disconnect =>
    unfold onCommand
    cases hl : a.live with
    | none =>
      simp only [hangUp_of_free ha hl]
      exact stride_still (ignores_of_free hl fun _ _ => rfl)
    | some l =>
      obtain ⟨-, peer, hpeer⟩ := ha.call_of_live hl
      simp only [hangUp_of_live ha hl hpeer]
      exact Stride.hungUp hl hpeer
  | close =>
    cases hl : a.live with
    | none =>
      have h : Stride settings r a _ _ := .signedOut hl (Or.inl rfl)
      simpa [onCommand, close_of_free ha hl, hrun] using h
    | some l =>
      obtain ⟨-, peer, hpeer⟩ := ha.call_of_live hl
      have h : Stride settings r a _ _ := .closed hl hpeer (Or.inl rfl)
      simpa [onCommand, close_of_live ha hl hpeer, freed, hrun] using h
  | shutdown =>
    cases hl : a.live with
    | none =>
      have h : Stride settings r a _ _ := .signedOut hl (Or.inr rfl)
      simpa [onCommand, close_of_free ha hl] using h
    | some l =>
      obtain ⟨-, peer, hpeer⟩ := ha.call_of_live hl
      have h : Stride settings r a _ _ := .closed hl hpeer (Or.inr rfl)
      simpa [onCommand, close_of_live ha hl hpeer, freed] using h

/-- Handling an event is a stride, also if the event belongs to another connection. -/
theorem stride_handle (ha : a.Coherent) (hrun : a.isRunning = true) (event : Event) :
    Stride settings r a event (finish (a.handle settings r event)) := by
  have hstale {connection : ConnId} {handle : Agent → Turn}
      (hours : ∀ l peer, Heeded a l peer event → l.id = connection)
      (hopening : a.opening settings event = none)
      (h : ∀ l, a.live = some l → l.id = connection →
        Stride settings r a event (finish (handle a))) :
      Stride settings r a event (finish (a.ifLive connection handle)) := by
    unfold ifLive
    split
    · next hlive =>
      obtain ⟨l, hl, hid⟩ := Option.map_eq_some_iff.mp hlive
      exact h l hl hid
    · next hother =>
      refine stride_warned ⟨fun l peer hl _ hheeded => hother ?_, fun _ _ => hopening⟩
      simp [hl, hours l peer hheeded]
  cases event with
  | command command => exact stride_onCommand ha hrun
  | bus news => exact stride_onBus ha
  | link connection news =>
    refine hstale (fun l peer h => ?_) rfl fun l hl hid => hid ▸ stride_onLink ha hl
    cases h with
    | ownCandidate => rfl
    | asked hasks => cases hasks
    | failure hfailure => cases hfailure; rfl
    | leaving hleaves => cases hleaves; rfl
  | outcome connection outcome =>
    refine hstale (fun l peer h => ?_) rfl fun l hl hid => hid ▸ stride_onOutcome ha hl
    cases h with
    | asked hasks => cases hasks <;> rfl
    | failure hfailure => cases hfailure; rfl
    | leaving hleaves => cases hleaves
  | records connection records =>
    refine hstale (fun l peer h => ?_) rfl fun l hl hid => ?_
    · cases h with
      | asked hasks => cases hasks
      | failure hfailure => cases hfailure
      | leaving hleaves => cases hleaves
    by_cases hphase : a.call.phase = .connected
    · have h : Stride settings r a (.records l.id records) _ := .records hl hphase
      simpa [onRecords, hphase, hid] using h
    · simpa [onRecords, hphase] using stride_still ignores_records

/-- A step of a coherent agent is a stride. An agent that has been shut down stands still. -/
theorem step_stride (ha : a.Coherent) (event : Event) :
    Stride settings r a event (a.step settings r event) := by
  unfold step
  cases hrun : a.isRunning with
  | true => exact stride_handle ha hrun event
  | false => exact stride_still (ignores_of_free (ha.stopped hrun).1 (by simp [hrun]))

end PeerCall.Agent
