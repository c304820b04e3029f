import PeerCall.Proofs.Agent.Session

/-!
# What a step sends

A step during a call sends from the head of its outbox to the peer of the call, up to the first
message that the bus refuses. Only a step that hangs up goes around the outbox, with the word that
ends the call.
-/

namespace PeerCall

/-- A message that was handed to the bus, and the error that it met, if any. -/
structure Attempt where
  peer : String
  text : String
  error : Option BusError

/-- The message that an effect hands to the bus. -/
def Effect.attempt? : Effect → Option Attempt
  | .send peer text error => some ⟨peer, text, error⟩
  | _ => none

/-- Whether an event is a command that ends a call. -/
def Event.hangsUp : Event → Bool
  | .command .disconnect | .command .close | .command .shutdown => true
  | _ => false

/-- A message with content is a record, and so never the word that ends a call. -/
theorem Message.encode_ne_byeText {message : Message} (h : message ≠ .bye) :
    message.encode ≠ Message.byeText := by
  have hrecord (members : List (String × Json.Tree)) :
      String.ofList (Json.Tree.record members).write ≠ byeText := by
    intro heq
    have hchars := congrArg String.toList heq
    simp [Json.Tree.write, byeText] at hchars
  cases message with
  | description d => exact hrecord _
  | candidate c => exact hrecord _
  | bye => exact absurd rfl h

namespace Agent

variable {settings : Settings} {a : Agent} {r : Replies} {event : Event}
  {x : Agent × List Effect} {peer : String} {tries : List Attempt} {queue rest : List String}

/-- The messages that are handed to the bus, in order. -/
def attempts (effects : List Effect) : List Attempt := effects.filterMap Effect.attempt?

/-- The messages that the bus takes. -/
def delivered (tries : List Attempt) : List String :=
  (tries.filter (·.error.isNone)).map (·.text)

/-- The messages that an event adds to the outbox: a description of this side that fits the phase,
and any candidate of this side. -/
def queued (a : Agent) : Event → List String
  | .link id (.candidate c) =>
    if a.live.map (·.id) = some id then [(Message.candidate c).encode] else []
  | .outcome id (.localReady d) =>
    if a.live.map (·.id) = some id ∧ (a.call.phase = .connecting ∧ d.kind = .offer ∨
        a.call.phase = .haveRemoteOffer ∧ d.kind = .answer) then
      [(Message.description d).encode]
    else []
  | _ => []

/-! ## One step -/

/-- A queue is sent to a peer from its head, up to the first message that the bus refuses. -/
inductive Sends (peer : String) : List String → List Attempt → List String → Prop
  | taken (sent rest : List String) :
      Sends peer (sent ++ rest) (sent.map (⟨peer, ·, none⟩)) rest
  | held (sent : List String) (text : String) (rest : List String) (error : BusError) :
      Sends peer (sent ++ text :: rest) (sent.map (⟨peer, ·, none⟩) ++ [⟨peer, text, some error⟩])
        (text :: rest)

/-- What has been delivered and what is left make up the queue. -/
theorem Sends.delivered_append (h : Sends peer queue tries rest) :
    delivered tries ++ rest = queue := by
  cases h <;> simp [delivered, List.filter_map, Function.comp_def]

/-- All is sent to the same peer. -/
theorem Sends.peer_eq (h : Sends peer queue tries rest) : ∀ s ∈ tries, s.peer = peer := by
  cases h <;> simp +contextual [or_imp]

/-- Nothing is sent but what is in the queue. -/
theorem Sends.text_mem (h : Sends peer queue tries rest) : ∀ s ∈ tries, s.text ∈ queue := by
  cases h <;> simp +contextual [or_imp]

/-- Nothing is tried after a message that the bus has refused. -/
theorem Sends.error_eq_none (h : Sends peer queue tries rest) :
    ∀ s ∈ tries.dropLast, s.error = none := by
  cases h with
  | taken sent rest =>
    intro s hs
    obtain ⟨text, -, rfl⟩ := List.mem_map.mp (List.dropLast_subset _ hs)
    rfl
  | held sent text rest error =>
    rw [List.dropLast_concat]
    simp

/-- A step that ends with sending sends from the outbox. -/
theorem flush_sends (hpeer : a.call.peer = some peer) :
    Sends peer a.call.outbox (Agent.attempts (finish (a.flush r)).2)
      (finish (a.flush r)).1.call.outbox := by
  rcases flush_cases (r := r) hpeer with h | ⟨sent, text, rest, error, hsplit, h⟩
  · rw [h]
    have hsends : Sends peer _ _ _ := .taken a.call.outbox []
    simpa [Agent.attempts, List.filterMap_map, Function.comp_def, Effect.attempt?] using hsends
  · rw [h, hsplit]
    have hsends : Sends peer _ _ _ := .held sent text rest error
    simpa [Agent.attempts, List.filterMap_map, List.filterMap_cons, Function.comp_def,
      Effect.attempt?] using hsends

/-- If the bus takes all messages, such a step leaves none. -/
theorem outbox_eq_nil_of_flush (hpeer : a.call.peer = some peer)
    (htaken : ∀ s ∈ Agent.attempts (finish (a.flush r)).2, s.error = none) :
    (finish (a.flush r)).1.call.outbox = [] := by
  rcases flush_cases (r := r) hpeer with h | ⟨sent, text, rest, error, -, h⟩
  · rw [h]
  · rw [h] at htaken
    simpa using htaken ⟨peer, text, some error⟩ (by simp [Agent.attempts, Effect.attempt?])

/-- What a step sends. -/
inductive Posts (a : Agent) (event : Event) (x : Agent × List Effect) : Prop
  /-- Without a call nothing is sent, nor by the step that begins one. -/
  | silent (hl : a.live = none) (hattempts : attempts x.2 = [])
  | goesOn {l l' : Live} {peer : String} (hl : a.live = some l) (hlive : x.1.live = some l')
      (hpeer : a.call.peer = some peer)
      (hsends : Sends peer (a.call.outbox ++ a.queued event) (attempts x.2) x.1.call.outbox)
  | hangsUp {l : Live} {peer : String} {error : Option BusError} (hl : a.live = some l)
      (hlive : x.1.live = none) (hpeer : a.call.peer = some peer) (hevent : event.hangsUp = true)
      (hattempts : attempts x.2 = [⟨peer, Message.byeText, error⟩])
  | ends {l : Live} (hl : a.live = some l) (hlive : x.1.live = none)
      (hevent : event.hangsUp = false) (hattempts : attempts x.2 = [])

/-- An event that has not to be heeded adds nothing to the outbox. -/
theorem queued_of_ignores (ha : a.Coherent) (hignores : a.Ignores settings event) :
    a.queued event = [] := by
  unfold queued
  split
  · next id c =>
    rw [if_neg]
    intro hid
    obtain ⟨l, hl, rfl⟩ := Option.map_eq_some_iff.mp hid
    obtain ⟨-, peer, hpeer⟩ := ha.call_of_live hl
    exact hignores.call l peer hl hpeer .ownCandidate
  · next id d =>
    rw [if_neg]
    rintro ⟨hid, hfits⟩
    obtain ⟨l, hl, rfl⟩ := Option.map_eq_some_iff.mp hid
    obtain ⟨-, peer, hpeer⟩ := ha.call_of_live hl
    rcases hfits with ⟨hphase, hkind⟩ | ⟨hphase, hkind⟩
    · exact hignores.call l peer hl hpeer (.asked (.localOffer hphase hkind))
    · exact hignores.call l peer hl hpeer (.asked (.localAnswer hphase hkind))
  · rfl

/-- A candidate of the live connection is added to the outbox. -/
theorem queued_ownCandidate {l : Live} {c : Candidate} (hl : a.live = some l) :
    a.queued (.link l.id (.candidate c)) = [(Message.candidate c).encode] :=
  if_pos (by simp [hl])

/-- So is a description of it that fits the phase. -/
theorem queued_localReady {l : Live} {d : Description} (hl : a.live = some l)
    (hfits : a.call.phase = .connecting ∧ d.kind = .offer ∨
      a.call.phase = .haveRemoteOffer ∧ d.kind = .answer) :
    a.queued (.outcome l.id (.localReady d)) = [(Message.description d).encode] :=
  if_pos ⟨by simp [hl], hfits⟩

/-- An event that asks for operations is no command. -/
theorem Asks.hangsUp_eq_false {l : Live} {operations : List Operation}
    (h : Asks a l peer event operations) : event.hangsUp = false := by
  cases h <;> rfl

/-- Messages are handed to the bus in the order of the effects. -/
theorem attempts_append (first second : List Effect) :
    Agent.attempts (first ++ second) = Agent.attempts first ++ Agent.attempts second := by
  simp [Agent.attempts]

/-- The end of a call hands nothing to the bus. -/
theorem attempts_parting {failure : Option String} : Agent.attempts (a.parting failure) = [] :=
  filterMap_parting (fun _ => rfl) (fun _ => rfl) fun _ => rfl

/-- A call that fails says nothing to the peer, whatever was handed over or noted before. -/
theorem attempts_failure {α : Type} {f : α → Effect} (hf : ∀ y, (f y).attempt? = none)
    (done : List α) (error : LinkError) {failure : Option String} :
    Agent.attempts (done.map f ++ .warn (.fatal error) :: a.parting failure) = [] := by
  have hdone : Agent.attempts (done.map f) = [] := filterMap_map_eq_nil hf done
  rw [attempts_append, hdone]
  exact attempts_parting

/-- A step that queues what its event adds and then sends goes on with the call. -/
theorem posts_of_flush {b : Agent} {l l' : Live} (earlier : List Effect) (ha : a.Coherent)
    (hl : a.live = some l) (hb : b.live = some l') (hpeer : b.call.peer = a.call.peer)
    (houtbox : b.call.outbox = a.call.outbox ++ a.queued event)
    (hearlier : Agent.attempts earlier = []) :
    Posts a event (finish ((b.flush r).after earlier)) := by
  obtain ⟨-, peer, hours⟩ := ha.call_of_live hl
  have hsends := flush_sends (r := r) (hpeer.trans hours)
  rw [finish_after]
  refine .goesOn hl (flush_live.trans hb) hours ?_
  rwa [attempts_append, hearlier, List.nil_append, ← houtbox]

/-- A step that sends nothing leaves the outbox as it is, if the call goes on. -/
theorem posts_of_same (ha : a.Coherent) (hlive : x.1.live.isSome = a.live.isSome)
    (houtbox : x.1.call.outbox = a.call.outbox) (hqueued : a.queued event = [])
    (hattempts : Agent.attempts x.2 = []) : Posts a event x := by
  cases hl : a.live with
  | none => exact .silent hl hattempts
  | some l =>
    obtain ⟨-, peer, hpeer⟩ := ha.call_of_live hl
    obtain ⟨l', hl'⟩ := Option.isSome_iff_exists.mp (hlive.trans (by simp [hl]))
    refine .goesOn hl hl' hpeer ?_
    rw [hqueued, hattempts, houtbox, List.append_nil]
    exact .taken [] _

/-- Every stride sends in one of these ways. -/
theorem Stride.posts (ha : a.Coherent) (hx : Stride settings r a event x) : Posts a event x := by
  cases hx with
  | quiet hignores =>
    have hqueued := queued_of_ignores ha hignores
    exact posts_of_same ha rfl rfl hqueued (filterMap_map_eq_nil (fun _ => rfl) _)
  | signedIn hl | signedOut hl =>
    refine .silent hl ?_
    dsimp only
    split_ifs <;> rfl
  | @opened _ _ offer hphase => cases offer <;> exact .silent (ha.live_of_idle hphase) rfl
  | @notCreated _ _ _ error hphase =>
    have hparting : Agent.attempts (a.parting (some error.message)) = [] := attempts_parting
    exact .silent (ha.live_of_idle hphase) hparting
  | notOpened hphase =>
    exact .silent (ha.live_of_idle hphase) (attempts_failure (fun _ => rfl) _ _)
  | flushed hl hevent =>
    have hqueued : a.queued event = [] := by
      rcases hevent with rfl | ⟨other, rfl⟩ <;> rfl
    exact posts_of_flush [] ha hl hl rfl (by simp [hqueued]) rfl
  | signedInDuringCall hl =>
    exact posts_of_flush [] ha hl hl rfl (List.append_nil _).symm rfl
  | ownCandidate hl =>
    refine posts_of_flush [] ha hl rfl rfl ?_ rfl
    rw [queued_ownCandidate hl]
    rfl
  | offerMade hl hphase hkind =>
    refine posts_of_flush _ ha hl hl rfl ?_ rfl
    rw [queued_localReady hl (Or.inl ⟨hphase, hkind⟩)]
    rfl
  | answerMade hl hphase hkind =>
    refine posts_of_flush _ ha hl hl rfl ?_ rfl
    rw [queued_localReady hl (Or.inr ⟨hphase, hkind⟩)]
    rfl
  | @hungUp l peer hl hpeer =>
    have hbye : Agent.attempts (.send peer Message.byeText (r.send 0) :: a.parting none) =
        [⟨peer, Message.byeText, r.send 0⟩] := congrArg (List.cons _) attempts_parting
    exact .hangsUp hl rfl hpeer rfl hbye
  | @closed l peer command hl hpeer hcommand =>
    have hrest :
        Agent.attempts (a.parting none ++ if a.isSignedIn then [.signOut] else []) = [] := by
      rw [attempts_append, attempts_parting]
      split <;> rfl
    have hbye : Agent.attempts (.send peer Message.byeText (r.send 0) ::
        (a.parting none ++ if a.isSignedIn then [.signOut] else [])) =
          [⟨peer, Message.byeText, r.send 0⟩] := congrArg (List.cons _) hrest
    refine .hangsUp hl rfl hpeer ?_ hbye
    rcases hcommand with rfl | rfl <;> rfl
  | left hl hpeer hleaves =>
    have hparting : Agent.attempts (a.parting none) = [] := attempts_parting
    refine .ends hl rfl ?_ hparting
    cases hleaves <;> rfl
  | broken hl hpeer hasks =>
    exact .ends hl rfl hasks.hangsUp_eq_false (attempts_failure (fun _ => rfl) _ _)
  | failed hl hfailure =>
    refine .ends hl rfl ?_ (attempts_failure (fun _ => rfl) _ _)
    cases hfailure <;> rfl
  | candidateKept hl => exact posts_of_same ha (by simp [hl]) rfl rfl rfl
  | released hl =>
    exact posts_of_same ha (by simp [hl]) rfl rfl (filterMap_map_eq_nil (fun _ => rfl) _)
  | records => exact posts_of_same ha rfl rfl rfl (filterMap_map_eq_nil (fun _ => rfl) _)
  | signInFailed =>
    refine posts_of_same ha rfl rfl rfl ?_
    dsimp only
    split_ifs <;> rfl
  | _ => exact posts_of_same ha rfl rfl rfl rfl

/-- The events of a call after which nothing waits, if the bus takes all messages. -/
def Flushes (a : Agent) : Event → Prop
  | .bus .signedIn | .bus (.peerConnected _) | .bus .messageSent => True
  | .link id (.candidate _) => a.live.map (·.id) = some id
  | _ => False

/-- After such an event nothing waits, if the bus takes all messages. -/
theorem Stride.outbox_eq_nil {l : Live} (ha : a.Coherent) (hx : Stride settings r a event x)
    (hl : a.live = some l) (hflushes : a.Flushes event)
    (htaken : ∀ s ∈ Agent.attempts x.2, s.error = none) : x.1.call.outbox = [] := by
  obtain ⟨hlive, peer, hpeer⟩ := ha.call_of_live hl
  have hbusy (hphase : a.call.phase = .idle) : False := by
    simp [hphase, Phase.isLive] at hlive
  cases hx with
  | quiet hignores =>
    exfalso
    unfold Flushes at hflushes
    split at hflushes
    · exact hignores.call l peer hl hpeer .signedIn
    · exact hignores.call l peer hl hpeer .peerConnected
    · exact hignores.call l peer hl hpeer .messageSent
    · obtain rfl : l.id = _ := by simpa [hl] using hflushes
      exact hignores.call l peer hl hpeer .ownCandidate
    · exact hflushes
  | opened hphase | notCreated hphase | notOpened hphase => exact (hbusy hphase).elim
  | flushed | signedInDuringCall | ownCandidate => exact outbox_eq_nil_of_flush hpeer htaken
  | signedIn hnone => simp [hl] at hnone
  | broken | failed | left => rfl
  | _ => exact hflushes.elim

end Agent

end PeerCall
