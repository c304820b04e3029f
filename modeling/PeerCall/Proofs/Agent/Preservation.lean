import PeerCall.Proofs.Agent.Inversion

/-!
# Coherence is kept

An agent without a call and an agent in a call are coherent for a few reasons each. Every stride
ends in one of the two, so every step of a coherent agent leaves a coherent agent.
-/

namespace PeerCall.Agent

variable {settings : Settings} {r : Replies} {a : Agent}

/-- An agent without any trace of a call is coherent. -/
theorem coherent_of_free {phase : Phase} (hcall : a.call = { phase := phase })
    (hphase : phase = .idle ∨ phase = .awaitingSignIn) (hl : a.live = none)
    (hpolled : a.polled = none) (hawaiting : phase = .awaitingSignIn → a.isSignedIn = false)
    (hstopped : a.isRunning = false → a.isSignedIn = false) : a.Coherent := by
  rcases hphase with rfl | rfl <;> constructor <;> simp_all [Phase.isLive]

/-- An agent in a call is coherent if its phase, its connection and its polls fit together. -/
theorem coherent_of_live {l : Live} {peer : String} (hl : a.live = some l)
    (hpeer : a.call.peer = some peer) (hphase : a.call.phase.isLive = true)
    (hpolled : a.polled = if a.call.phase = .connected then some l.id else none)
    (hid : l.id = a.issued) (hrun : a.isRunning = true)
    (hcaller : a.call.phase = .connecting ∨ a.call.phase = .haveLocalOffer →
      a.call.isCaller = true)
    (hwaiting : l.remote.isRemoteSet = true → l.remote.waiting = []) : a.Coherent := by
  constructor <;> simp_all
  all_goals
    intro h
    simp [h, Phase.isLive] at hphase

/-- Sending what waits keeps coherence, as it changes nothing but the outbox. -/
theorem coherent_flush {b : Agent} {l : Live} (hl : b.live = some l) (hb : b.Coherent) :
    (finish (b.flush r)).1.Coherent := by
  obtain ⟨hphase, peer, hpeer⟩ := hb.call_of_live hl
  have hpolled := hb.polled_eq
  rw [hl] at hpolled
  rw [finish_flush hpeer]
  exact coherent_of_live hl hpeer hphase hpolled (hb.id_eq_issued l hl) (hb.isRunning_of_live hl)
    hb.isCaller_of_phase (hb.waiting_eq_nil l hl)

/-- A stride of a running coherent agent ends in a coherent agent. -/
theorem Stride.coherent {event : Event} {x : Agent × List Effect} (ha : a.Coherent)
    (hrun : a.isRunning = true) (hx : Stride settings r a event x) : x.1.Coherent := by
  have hfreed : a.freed.Coherent :=
    coherent_of_free rfl (Or.inl rfl) rfl rfl (by simp) (by simp [freed, hrun])
  have hlive {l : Live} (hl : a.live = some l) :
      ∃ peer, a.call.peer = some peer ∧ a.call.phase.isLive = true ∧ l.id = a.issued ∧
        a.polled = if a.call.phase = .connected then some l.id else none := by
    obtain ⟨hphase, peer, hpeer⟩ := ha.call_of_live hl
    have hpolled := ha.polled_eq
    rw [hl] at hpolled
    exact ⟨peer, hpeer, hphase, ha.id_eq_issued l hl, hpolled⟩
  cases hx with
  | quiet | trackAdded | trackRemoved | records | signInRefused | candidatePassed => exact ha
  | signIn hphase hout =>
    obtain ⟨hl, hpolled, hcall⟩ := ha.fresh_of_idle hphase
    exact coherent_of_free (by rw [hcall]) (Or.inr rfl) hl hpolled (fun _ => hout) fun _ => hout
  | signedIn hl =>
    exact coherent_of_free rfl (Or.inl rfl) hl (ha.free hl).1 (by simp) (by simp [hrun])
  | signInFailed =>
    rcases Option.eq_none_or_eq_some a.live with hl | ⟨l, hl⟩
    · obtain ⟨hpolled, hcall, hphase⟩ := ha.free hl
      have hidle : { a.call with
          phase := if a.call.phase = .awaitingSignIn then .idle else a.call.phase } =
          ({ phase := .idle } : Call) := by
        rcases hphase with hphase | hphase <;> rw [hphase] at hcall ⊢ <;> simp [hcall]
      exact coherent_of_free hidle (Or.inl rfl) hl hpolled (fun _ => rfl) fun _ => rfl
    · obtain ⟨peer, hpeer, hphase, hid, hpolled⟩ := hlive hl
      have hne : a.call.phase ≠ .awaitingSignIn := by
        intro h
        simp [h, Phase.isLive] at hphase
      rw [if_neg hne]
      exact coherent_of_live hl hpeer hphase hpolled hid hrun ha.isCaller_of_phase
        (ha.waiting_eq_nil l hl)
  | @opened event peer offer hphase =>
    obtain ⟨-, hpolled, -⟩ := ha.fresh_of_idle hphase
    cases offer <;>
      exact coherent_of_live rfl rfl rfl hpolled rfl hrun (by simp [Agent.opened]) (by simp)
  | notCreated hphase =>
    obtain ⟨hl, hpolled, hcall⟩ := ha.fresh_of_idle hphase
    exact coherent_of_free hcall (Or.inl rfl) hl hpolled (by simp) (by simp [hrun])
  | notOpened hphase =>
    obtain ⟨hl, hpolled, hcall⟩ := ha.fresh_of_idle hphase
    exact coherent_of_free hcall (Or.inl rfl) hl hpolled (by simp) (by simp [hrun])
  | offerAccepted hl hpeer _ hphase =>
    obtain ⟨peer, -, -, hid, hpolled⟩ := hlive hl
    exact coherent_of_live hl hpeer rfl (by simpa [hphase] using hpolled) hid hrun (by simp)
      (ha.waiting_eq_nil _ hl)
  | answerAccepted hl hpeer _ hphase =>
    exact coherent_of_live hl hpeer rfl rfl (ha.id_eq_issued _ hl) hrun (by simp)
      (ha.waiting_eq_nil _ hl)
  | candidateKept hl hpeer _ hset =>
    obtain ⟨peer, -, hphase, hid, hpolled⟩ := hlive hl
    exact coherent_of_live rfl hpeer hphase hpolled hid hrun ha.isCaller_of_phase (by simp)
  | released hl =>
    obtain ⟨peer, hpeer, hphase, hid, hpolled⟩ := hlive hl
    exact coherent_of_live rfl hpeer hphase hpolled hid hrun ha.isCaller_of_phase (by simp)
  | flushed hl => exact coherent_flush hl ha
  | signedInDuringCall hl =>
    obtain ⟨peer, hpeer, hphase, hid, hpolled⟩ := hlive hl
    exact coherent_flush hl (coherent_of_live hl hpeer hphase hpolled hid hrun
      ha.isCaller_of_phase (ha.waiting_eq_nil _ hl))
  | ownCandidate hl =>
    obtain ⟨peer, hpeer, hphase, hid, hpolled⟩ := hlive hl
    exact coherent_flush rfl (coherent_of_live rfl hpeer hphase hpolled hid hrun
      ha.isCaller_of_phase (by simpa using ha.waiting_eq_nil _ hl))
  | offerMade hl hphase =>
    obtain ⟨peer, hpeer, -, hid, hpolled⟩ := hlive hl
    rw [finish_after]
    refine coherent_flush hl (coherent_of_live hl hpeer rfl (by simpa [hphase] using hpolled) hid
      hrun ?_ (ha.waiting_eq_nil _ hl))
    exact fun _ => ha.isCaller_of_phase (Or.inl hphase)
  | answerMade hl hphase =>
    obtain ⟨peer, hpeer, -, hid, hpolled⟩ := hlive hl
    rw [finish_after]
    exact coherent_flush hl (coherent_of_live hl hpeer rfl rfl hid hrun (by simp)
      (ha.waiting_eq_nil _ hl))
  | broken | failed | left | hungUp => exact hfreed
  | closed =>
    exact coherent_of_free rfl (Or.inl rfl) rfl rfl (by simp) fun _ => rfl
  | signedOut hl =>
    exact coherent_of_free rfl (Or.inl rfl) hl (ha.free hl).1 (by simp) fun _ => rfl

/-- A step of a coherent agent leaves a coherent agent. -/
theorem step_coherent (ha : a.Coherent) (event : Event) : (a.step settings r event).1.Coherent := by
  cases hrun : a.isRunning with
  | true => exact (step_stride ha event).coherent ha hrun
  | false => simpa [step, hrun] using ha

end PeerCall.Agent
