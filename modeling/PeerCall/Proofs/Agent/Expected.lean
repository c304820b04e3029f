import PeerCall.Proofs.Agent.History
import PeerCall.Proofs.Message.RoundTrip

/-!
# Events without a place

Which events an agent acts on depends on the phase of its call and on who or what they come from.
All others leave no trace: the agent stays as it is in every field, and nothing is done but to warn.
-/

namespace PeerCall.Agent

variable {settings : Settings} {a : Agent} {r : Replies} {event : Event}
  {x : Agent × List Effect}

/-- The events that have a place in the state of an agent. -/
inductive Expects (settings : Settings) (a : Agent) : Event → Prop
  | signIn (hphase : a.call.phase = .idle) (hout : a.isSignedIn = false) :
      Expects settings a (.command .signIn)
  | connect {peer : String} (hphase : a.call.phase = .idle) :
      Expects settings a (.command (.connect peer))
  | disconnect (hphase : a.call.phase.isLive = true) : Expects settings a (.command .disconnect)
  | close (hopen : a.call.phase.isLive = true ∨ a.call.phase = .awaitingSignIn ∨
      a.isSignedIn = true) : Expects settings a (.command .close)
  | shutdown : Expects settings a (.command .shutdown)
  | signedIn : Expects settings a (.bus .signedIn)
  | signInFailed {reason : String} : Expects settings a (.bus (.signInFailed reason))
  /-- The bus may pass more while messages wait to be sent. -/
  | messageSent (hwaits : a.call.outbox ≠ []) : Expects settings a (.bus .messageSent)
  | peerConnected {peer : String} (hwaits : a.call.outbox ≠ []) :
      Expects settings a (.bus (.peerConnected peer))
  | autocall {peer : String} (hautocall : settings.autocall = true) (hin : a.isSignedIn = true)
      (hphase : a.call.phase = .idle) : Expects settings a (.bus (.peerConnected peer))
  | gone {peer : String} (hphase : a.call.phase.isLive = true) (hpeer : a.call.peer = some peer) :
      Expects settings a (.bus (.peerDisconnected peer))
  | offer {peer text : String} {d : Description}
      (hdecode : Message.decode text = .ok (.description d)) (hkind : d.kind = .offer)
      (hphase : a.call.phase = .idle ∨
        a.call.phase = .connecting ∧ a.call.peer = some peer) :
      Expects settings a (.bus (.message peer text))
  | answer {peer text : String} {d : Description}
      (hdecode : Message.decode text = .ok (.description d)) (hkind : d.kind = .answer)
      (hphase : a.call.phase = .haveLocalOffer) (hpeer : a.call.peer = some peer) :
      Expects settings a (.bus (.message peer text))
  | candidate {peer text : String} {c : Candidate}
      (hdecode : Message.decode text = .ok (.candidate c))
      (hphase : a.call.phase.isLive = true) (hpeer : a.call.peer = some peer) :
      Expects settings a (.bus (.message peer text))
  | bye {peer text : String} (hdecode : Message.decode text = .ok .bye)
      (hphase : a.call.phase.isLive = true) (hpeer : a.call.peer = some peer) :
      Expects settings a (.bus (.message peer text))
  | ownCandidate {l : Live} {c : Candidate} (hl : a.live = some l) :
      Expects settings a (.link l.id (.candidate c))
  | trackAdded {l : Live} {track : Track} (hl : a.live = some l) :
      Expects settings a (.link l.id (.trackAdded track))
  | trackRemoved {l : Live} {track : Track} (hl : a.live = some l) :
      Expects settings a (.link l.id (.trackRemoved track))
  | linkState {l : Live} {state : LinkState} (hl : a.live = some l)
      (hstate : state = .failed ∨ state = .closed) : Expects settings a (.link l.id (.state state))
  | localReady {l : Live} {d : Description} (hl : a.live = some l)
      (hfits : a.call.phase = .connecting ∧ d.kind = .offer ∨
        a.call.phase = .haveRemoteOffer ∧ d.kind = .answer) :
      Expects settings a (.outcome l.id (.localReady d))
  /-- The description of the peer is applied for the first time. -/
  | remoteApplied {l : Live} {kind : SdpKind} (hl : a.live = some l)
      (hset : l.remote.isRemoteSet = false) :
      Expects settings a (.outcome l.id (.remoteApplied kind))
  | failed {l : Live} {kind : Operation.Kind} {error : LinkError} (hl : a.live = some l) :
      Expects settings a (.outcome l.id (.failed kind error))
  | records {l : Live} {records : List Metrics.Record} (hl : a.live = some l)
      (hphase : a.call.phase = .connected) (hsome : records ≠ []) :
      Expects settings a (.records l.id records)

/-- An event that begins a call has a place in an idle agent. -/
theorem expects_of_opening {peer : String} {offer : Option Description}
    (hphase : a.call.phase = .idle) (hopening : a.opening settings event = some (peer, offer)) :
    a.Expects settings event := by
  unfold opening at hopening
  split at hopening
  · exact .connect hphase
  · split at hopening
    · next hcall =>
      obtain ⟨hautocall, hin⟩ := Bool.and_eq_true_iff.mp hcall
      exact .autocall hautocall hin hphase
    · simp at hopening
  · split at hopening
    · next hdecode =>
      split at hopening
      · next hkind => exact .offer hdecode hkind (Or.inl hphase)
      · simp at hopening
    · simp at hopening
  · simp at hopening

/-- An event that asks for operations has a place in a call, unless there are none. -/
theorem Asks.expects {l : Live} {peer : String} {operations : List Operation} (ha : a.Coherent)
    (hl : a.live = some l) (hpeer : a.call.peer = some peer) (h : Asks a l peer event operations)
    (hsome : operations ≠ []) : a.Expects settings event := by
  cases h with
  | offer hdecode hphase hkind => exact .offer hdecode hkind (Or.inr ⟨hphase, hpeer⟩)
  | answer hdecode hphase hkind => exact .answer hdecode hkind hphase hpeer
  | candidate hdecode => exact .candidate hdecode (ha.call_of_live hl).1 hpeer
  | localOffer hphase hkind => exact .localReady hl (Or.inl ⟨hphase, hkind⟩)
  | localAnswer hphase hkind => exact .localReady hl (Or.inr ⟨hphase, hkind⟩)
  | release =>
    refine .remoteApplied hl ?_
    by_contra hset
    rw [ha.waiting_eq_nil l hl (by simpa using hset)] at hsome
    exact hsome rfl

/-- So has an event that ends a call. -/
theorem LinkFailure.expects {l : Live} {noted : List Warning} {error : LinkError}
    (hl : a.live = some l) (h : LinkFailure l event noted error) : a.Expects settings event := by
  cases h with
  | state => exact .linkState hl (Or.inl rfl)
  | operation => exact .failed hl

/-- So has an event at which the peer leaves. -/
theorem Leaves.expects {l : Live} {peer : String} (ha : a.Coherent) (hl : a.live = some l)
    (hpeer : a.call.peer = some peer) (h : Leaves l peer event) : a.Expects settings event := by
  have hphase := (ha.call_of_live hl).1
  cases h with
  | bye hdecode => exact .bye hdecode hphase hpeer
  | gone => exact .gone hphase hpeer
  | linkClosed => exact .linkState hl (Or.inr rfl)

/-- With an empty outbox nothing is sent. -/
theorem finish_flush_of_nil (houtbox : a.call.outbox = []) : finish (a.flush r) = (a, []) := by
  cases hpeer : a.call.peer with
  | none => rw [flush_of_no_peer hpeer, finish_emit]
  | some peer =>
    rw [finish_flush hpeer, houtbox]
    simp [Outbox.drain, ← houtbox]

/-- The description of the peer is applied only once. -/
theorem released_of_set {l : Live} (ha : a.Coherent) (hl : a.live = some l)
    (hset : l.remote.isRemoteSet = true) :
    l.remote.waiting = [] ∧ { a with live := some { l with remote := ⟨true, []⟩ } } = a := by
  have hwaiting := ha.waiting_eq_nil l hl hset
  have hremote : l.remote = ⟨true, []⟩ := by
    rw [← hset, ← hwaiting]
  exact ⟨hwaiting, by rw [← hremote, ← hl]⟩

/-- Without a call and signed out there is nothing to close. -/
theorem closed_of_free (ha : a.Coherent) (hrun : a.isRunning = true) (hl : a.live = none)
    (hphase : a.call.phase ≠ .awaitingSignIn) (hout : a.isSignedIn = false) :
    { a with call := {}, isSignedIn := false, isRunning := true } = a := by
  obtain ⟨-, hcall, hidle | hawaiting⟩ := ha.free hl
  · rw [hidle] at hcall
    rw [← hcall, ← hout, ← hrun]
  · exact absurd hawaiting hphase

/-- A stride at an event without a place is quiet. -/
theorem Stride.quiet_of_unexpected (ha : a.Coherent) (hrun : a.isRunning = true)
    (hx : Stride settings r a event x) (h : ¬a.Expects settings event) :
    ∃ warnings : List Warning, x = (a, warnings.map .warn) := by
  cases hx with
  | quiet => exact ⟨_, rfl⟩
  | trackAdded hl => exact absurd (.trackAdded hl) h
  | trackRemoved hl => exact absurd (.trackRemoved hl) h
  | @records l records hl hphase =>
    cases records with
    | nil => exact ⟨[], rfl⟩
    | cons => exact absurd (.records hl hphase (by simp)) h
  | signIn hphase hout | signInRefused hphase hout => exact absurd (.signIn hphase hout) h
  | signedIn | signedInDuringCall => exact absurd .signedIn h
  | signInFailed => exact absurd .signInFailed h
  | opened hphase hopening | notCreated hphase hopening | notOpened hphase hopening =>
    exact absurd (expects_of_opening hphase hopening) h
  | offerAccepted hl hpeer hdecode hphase hkind =>
    exact absurd ((Asks.offer hdecode hphase hkind).expects ha hl hpeer (by simp)) h
  | answerAccepted hl hpeer hdecode hphase hkind =>
    exact absurd ((Asks.answer hdecode hphase hkind).expects ha hl hpeer (by simp)) h
  | candidateKept hl hpeer hdecode | candidatePassed hl hpeer hdecode =>
    exact absurd (.candidate hdecode (ha.call_of_live hl).1 hpeer) h
  | @released l kind hl =>
    cases hset : l.remote.isRemoteSet with
    | false => exact absurd (.remoteApplied hl hset) h
    | true =>
      obtain ⟨hwaiting, hsame⟩ := released_of_set ha hl hset
      exact ⟨[], by rw [hsame, hwaiting]; rfl⟩
  | flushed hl hevent =>
    have houtbox : a.call.outbox = [] := by
      by_contra hwaits
      rcases hevent with rfl | ⟨peer, rfl⟩
      · exact h (.messageSent hwaits)
      · exact h (.peerConnected hwaits)
    exact ⟨[], finish_flush_of_nil houtbox⟩
  | ownCandidate hl => exact absurd (.ownCandidate hl) h
  | offerMade hl hphase hkind => exact absurd (.localReady hl (Or.inl ⟨hphase, hkind⟩)) h
  | answerMade hl hphase hkind => exact absurd (.localReady hl (Or.inr ⟨hphase, hkind⟩)) h
  | broken hl hpeer hasks => exact absurd (hasks.expects ha hl hpeer (by simp)) h
  | failed hl hfailure => exact absurd (hfailure.expects hl) h
  | left hl hpeer hleaves => exact absurd (hleaves.expects ha hl hpeer) h
  | hungUp hl => exact absurd (.disconnect (ha.call_of_live hl).1) h
  | closed hl _ hcommand =>
    rcases hcommand with rfl | rfl
    · exact absurd (.close (Or.inl (ha.call_of_live hl).1)) h
    · exact absurd .shutdown h
  | signedOut hl hcommand =>
    rcases hcommand with rfl | rfl
    · have hphase : a.call.phase ≠ .awaitingSignIn := fun hawaiting =>
        h (.close (Or.inr (Or.inl hawaiting)))
      have hout : a.isSignedIn = false := by
        by_contra hin
        exact h (.close (Or.inr (Or.inr (by simpa using hin))))
      refine ⟨[], ?_⟩
      have hsame := closed_of_free ha hrun hl hphase hout
      simpa [hphase, hout] using hsame
    · exact absurd .shutdown h

/-- In every run, an event that has no place in the state of the agent leaves the agent as it is,
and nothing is done but to warn. -/
theorem run_unexpected (settings : Settings) (script : List (Event × Replies)) (event : Event)
    (r : Replies) (h : ¬(run settings script {}).1.Expects settings event) :
    let a := (run settings script {}).1
    ∃ warnings : List Warning, a.step settings r event = (a, warnings.map .warn) := by
  intro a
  have ha : a.Coherent := coherent_run script
  cases hrun : a.isRunning with
  | true => exact (step_stride ha event).quiet_of_unexpected ha hrun h
  | false => exact ⟨[], by simp [step, hrun]⟩

/-- An offer has no place but at the beginning of a call. -/
theorem not_expects_offer {peer text : String} {d : Description}
    (hdecode : Message.decode text = .ok (.description d)) (hkind : d.kind = .offer)
    (hphase : a.call.phase ≠ .idle ∧ a.call.phase ≠ .connecting) :
    ¬a.Expects settings (.bus (.message peer text)) := by
  intro h
  cases h with
  | offer _ _ hearly => exact hearly.elim hphase.1 fun hconnecting => hphase.2 hconnecting.1
  | answer hother hanswer =>
    obtain rfl := Message.description.inj (Except.ok.inj (hdecode.symm.trans hother))
    simp [hkind] at hanswer
  | candidate hother | bye hother => cases hdecode.symm.trans hother

/-- The offer of a peer that has called at the same time, once an offer has gone out to it. -/
theorem unexpected_crossed_offer :
    let script : List (Event × Replies) :=
      [(.command (.connect "bob"), {}), (.outcome 1 (.localReady ⟨.offer, "ours"⟩), {})]
    let event : Event := .bus (.message "bob" (Message.description ⟨.offer, "theirs"⟩).encode)
    let a := (run Settings.default script {}).1
    a.call.phase = .haveLocalOffer ∧ ¬a.Expects Settings.default event ∧
      ∃ warnings : List Warning, a.step Settings.default {} event = (a, warnings.map .warn) := by
  intro script event a
  have hphase : a.call.phase = .haveLocalOffer := by decide +kernel
  have hexpects : ¬a.Expects Settings.default event :=
    not_expects_offer (Message.decode_encode _) rfl (by simp [hphase])
  exact ⟨hphase, hexpects, run_unexpected Settings.default script event {} hexpects⟩

end PeerCall.Agent
