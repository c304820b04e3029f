import PeerCall.Proofs.Agent.Coherence

/-!
# What a step can do

A step of a coherent agent is one of a fixed list of strides. Each stride names its event, the
conditions under which it is taken, the agent after it and all that is done. Later files argue
about strides and never open a handler.
-/

namespace PeerCall.Agent

/-! ## The parts of a stride -/

/-- Who an event would begin a call with, and the offer that the call would answer. -/
def opening (settings : Settings) (a : Agent) : Event → Option (String × Option Description)
  | .command (.connect peer) => some (peer, none)
  | .bus (.peerConnected peer) =>
    if settings.autocall && a.isSignedIn then some (peer, none) else none
  | .bus (.message peer text) =>
    match Message.decode text with
    | .ok (.description d) => if d.kind = .offer then some (peer, some d) else none
    | _ => none
  | _ => none

/-- The operations with which a call begins. -/
def openingOperations : Option Description → List Operation
  | none => [.createOffer]
  | some offer => [.setRemote offer, .createAnswer]

/-- The agent after it has begun a call. -/
def opened (peer : String) (offer : Option Description) (a : Agent) : Agent :=
  { a with
    call := { peer := some peer
              phase := if offer.isSome then .haveRemoteOffer else .connecting
              isCaller := offer.isNone }
    live := some { id := a.issued + 1 }
    issued := a.issued + 1 }

/-- The operations that an event of a call asks for. -/
inductive Asks (a : Agent) (l : Live) (peer : String) : Event → List Operation → Prop
  | offer {text : String} {d : Description} (hdecode : Message.decode text = .ok (.description d))
      (hphase : a.call.phase = .connecting) (hkind : d.kind = .offer) :
      Asks a l peer (.bus (.message peer text)) [.setRemote d, .createAnswer]
  | answer {text : String} {d : Description}
      (hdecode : Message.decode text = .ok (.description d))
      (hphase : a.call.phase = .haveLocalOffer) (hkind : d.kind = .answer) :
      Asks a l peer (.bus (.message peer text)) [.setRemote d]
  | candidate {text : String} {c : Candidate}
      (hdecode : Message.decode text = .ok (.candidate c)) (hset : l.remote.isRemoteSet = true) :
      Asks a l peer (.bus (.message peer text)) [.addCandidate c]
  | localOffer {d : Description} (hphase : a.call.phase = .connecting) (hkind : d.kind = .offer) :
      Asks a l peer (.outcome l.id (.localReady d)) [.setLocal d]
  | localAnswer {d : Description} (hphase : a.call.phase = .haveRemoteOffer)
      (hkind : d.kind = .answer) :
      Asks a l peer (.outcome l.id (.localReady d)) [.setLocal d]
  | release {kind : SdpKind} :
      Asks a l peer (.outcome l.id (.remoteApplied kind)) (l.remote.waiting.map .addCandidate)

/-- The failures of the link that end a call, with what is noted of them. -/
inductive LinkFailure (l : Live) : Event → List Warning → LinkError → Prop
  | state : LinkFailure l (.link l.id (.state .failed)) [] .connectionFailed
  | operation {kind : Operation.Kind} {error : LinkError} :
      LinkFailure l (.outcome l.id (.failed kind error)) [.operationFailed kind] error

/-- The events that end a call without a failure and without a word to the peer. -/
inductive Leaves (l : Live) (peer : String) : Event → Prop
  | bye {text : String} (hdecode : Message.decode text = .ok .bye) :
      Leaves l peer (.bus (.message peer text))
  | gone : Leaves l peer (.bus (.peerDisconnected peer))
  | linkClosed : Leaves l peer (.link l.id (.state .closed))

/-- The events that are never without consequence during a call. -/
inductive Heeded (a : Agent) (l : Live) (peer : String) : Event → Prop
  | signedIn : Heeded a l peer (.bus .signedIn)
  | peerConnected {other : String} : Heeded a l peer (.bus (.peerConnected other))
  | messageSent : Heeded a l peer (.bus .messageSent)
  | candidate {text : String} {c : Candidate} (hdecode : Message.decode text = .ok (.candidate c)) :
      Heeded a l peer (.bus (.message peer text))
  | ownCandidate {c : Candidate} : Heeded a l peer (.link l.id (.candidate c))
  | asked {event : Event} {operations : List Operation} (hasks : Asks a l peer event operations) :
      Heeded a l peer event
  | failure {event : Event} {noted : List Warning} {error : LinkError}
      (hfailure : LinkFailure l event noted error) : Heeded a l peer event
  | leaving {event : Event} (hleaves : Leaves l peer event) : Heeded a l peer event
  | hangUp {command : Command}
      (hcommand : command = .disconnect ∨ command = .close ∨ command = .shutdown) :
      Heeded a l peer (.command command)

/-- Nothing has to come of an event. -/
structure Ignores (settings : Settings) (a : Agent) (event : Event) : Prop where
  call : ∀ l peer, a.live = some l → a.call.peer = some peer → ¬Heeded a l peer event
  idle : a.isRunning = true → a.call.phase = .idle → a.opening settings event = none

/-! ## Strides -/

/-- What one step of a running coherent agent can do. -/
inductive Stride (settings : Settings) (r : Replies) (a : Agent) :
    Event → Agent × List Effect → Prop
  /-- Nothing comes of the event but warnings. -/
  | quiet {event : Event} {warnings : List Warning} (hignores : a.Ignores settings event) :
      Stride settings r a event (a, warnings.map .warn)
  | trackAdded {l : Live} {track : Track} (hl : a.live = some l) :
      Stride settings r a (.link l.id (.trackAdded track)) (a, [.notify (.trackAdded track)])
  | trackRemoved {l : Live} {track : Track} (hl : a.live = some l) :
      Stride settings r a (.link l.id (.trackRemoved track)) (a, [.notify (.trackRemoved track)])
  | records {l : Live} {records : List Metrics.Record} (hl : a.live = some l)
      (hphase : a.call.phase = .connected) :
      Stride settings r a (.records l.id records) (a, records.map fun x => .notify (.record x))
  | signIn (hphase : a.call.phase = .idle) (hout : a.isSignedIn = false)
      (hreply : r.signIn = none) :
      Stride settings r a (.command .signIn)
        ({ a with call := { a.call with phase := .awaitingSignIn } },
          [.signIn none, .notify (.phase .awaitingSignIn)])
  | signInRefused {error : BusError} (hphase : a.call.phase = .idle) (hout : a.isSignedIn = false)
      (hreply : r.signIn = some error) :
      Stride settings r a (.command .signIn)
        (a, [.signIn (some error), .warn (.signInFailed error.message),
          .notify (.signInFailed error.message)])
  | signedIn (hl : a.live = none) :
      Stride settings r a (.bus .signedIn)
        ({ a with isSignedIn := true, call := {} },
          if a.call.phase = .awaitingSignIn then [.notify (.phase .idle)] else [])
  | signInFailed {reason : String} :
      Stride settings r a (.bus (.signInFailed reason))
        ({ a with
            isSignedIn := false
            call := { a.call with
              phase := if a.call.phase = .awaitingSignIn then .idle else a.call.phase } },
          .warn (.signInFailed reason) ::
            ((if a.call.phase = .awaitingSignIn then [.notify (.phase .idle)] else []) ++
              [.notify (.signInFailed reason)]))
  /-- A call begins. -/
  | opened {event : Event} {peer : String} {offer : Option Description}
      (hphase : a.call.phase = .idle) (hopening : a.opening settings event = some (peer, offer))
      (hreply : r.create = none)
      (htakes : r.Takes (a.issued + 1) (openingOperations offer).length) :
      Stride settings r a event
        (a.opened peer offer,
          .notify (.phase .connecting) :: .create (a.issued + 1) none ::
            ((openingOperations offer).map (.submit (a.issued + 1)) ++
              if offer.isSome then [.notify (.phase .haveRemoteOffer)] else []))
  /-- No connection could be made for a call. -/
  | notCreated {event : Event} {peer : String} {offer : Option Description} {error : LinkError}
      (hphase : a.call.phase = .idle) (hopening : a.opening settings event = some (peer, offer))
      (hreply : r.create = some error) :
      Stride settings r a event
        ({ a with issued := a.issued + 1 },
          .notify (.phase .connecting) :: .create (a.issued + 1) (some error) ::
            .warn (.fatal error) :: a.parting (some error.message))
  /-- The worker of a new connection is dead before the call has begun. -/
  | notOpened {event : Event} {peer : String} {offer : Option Description}
      {taken left : List Operation} {refused : Operation}
      (hphase : a.call.phase = .idle) (hopening : a.opening settings event = some (peer, offer))
      (hreply : r.create = none) (hsplit : openingOperations offer = taken ++ refused :: left)
      (hdead : r.isDead taken.length (a.issued + 1) = true) :
      Stride settings r a event
        ({ a with issued := a.issued + 1 },
          .notify (.phase .connecting) :: .create (a.issued + 1) none ::
            (taken.map (.submit (a.issued + 1)) ++ .warn (.fatal .closed) ::
              (a.opened peer offer).parting (some LinkError.closed.message)))
  | offerAccepted {l : Live} {peer text : String} {d : Description} (hl : a.live = some l)
      (hpeer : a.call.peer = some peer) (hdecode : Message.decode text = .ok (.description d))
      (hphase : a.call.phase = .connecting) (hkind : d.kind = .offer)
      (htakes : r.Takes l.id 2) :
      Stride settings r a (.bus (.message peer text))
        ({ a with call := { a.call with phase := .haveRemoteOffer } },
          [.submit l.id (.setRemote d), .submit l.id .createAnswer,
            .notify (.phase .haveRemoteOffer)])
  | answerAccepted {l : Live} {peer text : String} {d : Description} (hl : a.live = some l)
      (hpeer : a.call.peer = some peer) (hdecode : Message.decode text = .ok (.description d))
      (hphase : a.call.phase = .haveLocalOffer) (hkind : d.kind = .answer)
      (htakes : r.Takes l.id 1) :
      Stride settings r a (.bus (.message peer text))
        ({ a with call := { a.call with phase := .connected }, polled := some l.id },
          [.submit l.id (.setRemote d), .notify (.phase .connected), .startPolls l.id])
  /-- A candidate of the peer waits for its description. -/
  | candidateKept {l : Live} {peer text : String} {c : Candidate} (hl : a.live = some l)
      (hpeer : a.call.peer = some peer) (hdecode : Message.decode text = .ok (.candidate c))
      (hset : l.remote.isRemoteSet = false) :
      Stride settings r a (.bus (.message peer text))
        ({ a with live := some { l with remote := ⟨false, l.remote.waiting ++ [c]⟩ } }, [])
  | candidatePassed {l : Live} {peer text : String} {c : Candidate} (hl : a.live = some l)
      (hpeer : a.call.peer = some peer) (hdecode : Message.decode text = .ok (.candidate c))
      (hset : l.remote.isRemoteSet = true) (htakes : r.Takes l.id 1) :
      Stride settings r a (.bus (.message peer text)) (a, [.submit l.id (.addCandidate c)])
  /-- The candidates that waited for the description of the peer are handed over. -/
  | released {l : Live} {kind : SdpKind} (hl : a.live = some l)
      (htakes : r.Takes l.id l.remote.waiting.length) :
      Stride settings r a (.outcome l.id (.remoteApplied kind))
        ({ a with live := some { l with remote := ⟨true, []⟩ } },
          l.remote.waiting.map fun c => .submit l.id (.addCandidate c))
  /-- What waits in the outbox is sent. -/
  | flushed {l : Live} {event : Event} (hl : a.live = some l)
      (hevent : event = .bus .messageSent ∨ ∃ peer, event = .bus (.peerConnected peer)) :
      Stride settings r a event (finish (a.flush r))
  | signedInDuringCall {l : Live} (hl : a.live = some l) :
      Stride settings r a (.bus .signedIn) (finish (({ a with isSignedIn := true }).flush r))
  | ownCandidate {l : Live} {c : Candidate} (hl : a.live = some l) :
      Stride settings r a (.link l.id (.candidate c))
        (finish (({ a with
          live := some { l with own := l.own ++ [c] }
          call := a.call.push (Message.candidate c).encode }).flush r))
  | offerMade {l : Live} {d : Description} (hl : a.live = some l)
      (hphase : a.call.phase = .connecting) (hkind : d.kind = .offer)
      (htakes : r.Takes l.id 1) :
      Stride settings r a (.outcome l.id (.localReady d))
        (finish ((({ a with
          call := { a.call.push (Message.description d).encode with
            phase := .haveLocalOffer } }).flush r).after
          [.submit l.id (.setLocal d), .notify (.phase .haveLocalOffer)]))
  | answerMade {l : Live} {d : Description} (hl : a.live = some l)
      (hphase : a.call.phase = .haveRemoteOffer) (hkind : d.kind = .answer)
      (htakes : r.Takes l.id 1) :
      Stride settings r a (.outcome l.id (.localReady d))
        (finish ((({ a with
          call := { a.call.push (Message.description d).encode with phase := .connected }
          polled := some l.id }).flush r).after
          [.submit l.id (.setLocal d), .notify (.phase .connected), .startPolls l.id]))
  /-- The worker of the connection refuses an operation. -/
  | broken {l : Live} {peer : String} {event : Event} {taken left : List Operation}
      {refused : Operation} (hl : a.live = some l) (hpeer : a.call.peer = some peer)
      (hasks : Asks a l peer event (taken ++ refused :: left))
      (hdead : r.isDead taken.length l.id = true) :
      Stride settings r a event
        (a.freed, taken.map (.submit l.id) ++ .warn (.fatal .closed) ::
          a.parting (some LinkError.closed.message))
  /-- The link or one of its operations has failed. -/
  | failed {l : Live} {event : Event} {noted : List Warning} {error : LinkError}
      (hl : a.live = some l) (hfailure : LinkFailure l event noted error) :
      Stride settings r a event
        (a.freed, noted.map .warn ++ .warn (.fatal error) :: a.parting (some error.message))
  | left {l : Live} {peer : String} {event : Event} (hl : a.live = some l)
      (hpeer : a.call.peer = some peer) (hleaves : Leaves l peer event) :
      Stride settings r a event (a.freed, a.parting none)
  | hungUp {l : Live} {peer : String} (hl : a.live = some l) (hpeer : a.call.peer = some peer) :
      Stride settings r a (.command .disconnect)
        (a.freed, .send peer Message.byeText (r.send 0) :: a.parting none)
  | closed {l : Live} {peer : String} {command : Command} (hl : a.live = some l)
      (hpeer : a.call.peer = some peer) (hcommand : command = .close ∨ command = .shutdown) :
      Stride settings r a (.command command)
        ({ a.freed with isSignedIn := false, isRunning := decide (command ≠ .shutdown) },
          .send peer Message.byeText (r.send 0) ::
            (a.parting none ++ if a.isSignedIn then [.signOut] else []))
  /-- The agent is closed without a call. -/
  | signedOut {command : Command} (hl : a.live = none)
      (hcommand : command = .close ∨ command = .shutdown) :
      Stride settings r a (.command command)
        ({ a with call := {}, isSignedIn := false, isRunning := decide (command ≠ .shutdown) },
          if a.call.phase = .awaitingSignIn then [.signOut, .notify (.phase .idle)]
          else if a.isSignedIn then [.signOut] else [])

end PeerCall.Agent
