import PeerCall.Proofs.Agent.Delivery
import PeerCall.Proofs.Agent.Operations

/-!
# The exchange of descriptions

A connection takes part in one exchange of an offer and an answer. How far the exchange has come
can be read off the phase of the call, whatever the peer sends and whatever descriptions the link
makes. A connection that is given up leaves its exchange at some point and never takes it up again.
-/

namespace PeerCall

namespace Operation

/-- Whether an operation belongs to the exchange of descriptions. -/
def negotiates : Operation → Bool
  | .addCandidate _ => false
  | _ => true

/-- The description that an operation applies on this side. -/
def setLocal? : Operation → Option Description
  | .setLocal d => some d
  | _ => none

/-- The description that an operation applies for the side of the peer. -/
def setRemote? : Operation → Option Description
  | .setRemote d => some d
  | _ => none

end Operation

/-- The description that a message holds. -/
def Message.description? : Message → Option Description
  | .description d => some d
  | _ => none

/-- What the caller asks of its link before anything else. -/
def preamble (isCaller : Bool) : List Operation := if isCaller then [.createOffer] else []

/-- How far an exchange of descriptions has come in a phase of the call: the operations of the
connection, but for the candidates. -/
inductive Exchange (isCaller : Bool) : Phase → List Operation → Prop
  | connecting (hcaller : isCaller = true) : Exchange isCaller .connecting [.createOffer]
  | haveLocalOffer {offer : Description} (hcaller : isCaller = true)
      (hoffer : offer.kind = .offer) :
      Exchange isCaller .haveLocalOffer [.createOffer, .setLocal offer]
  | haveRemoteOffer {offer : Description} (hoffer : offer.kind = .offer) :
      Exchange isCaller .haveRemoteOffer (preamble isCaller ++ [.setRemote offer, .createAnswer])
  | answered {offer answer : Description} (hcaller : isCaller = true) (hoffer : offer.kind = .offer)
      (hanswer : answer.kind = .answer) :
      Exchange isCaller .connected [.createOffer, .setLocal offer, .setRemote answer]
  | accepted {offer answer : Description} (hoffer : offer.kind = .offer)
      (hanswer : answer.kind = .answer) :
      Exchange isCaller .connected
        (preamble isCaller ++ [.setRemote offer, .createAnswer, .setLocal answer])

/-- Operations that are the beginning of an exchange. -/
def IsLegal (operations : List Operation) : Prop :=
  ∃ isCaller phase whole, Exchange isCaller phase whole ∧ operations <+: whole

/-- The descriptions that operations apply on this side. -/
def ownDescriptions (operations : List Operation) : List Description :=
  operations.filterMap Operation.setLocal?

/-- The descriptions that operations apply for the side of the peer. -/
def peerDescriptions (operations : List Operation) : List Description :=
  operations.filterMap Operation.setRemote?

/-! ## Exchanges -/

/-- The descriptions of this side come one after another. -/
theorem ownDescriptions_append (first second : List Operation) :
    ownDescriptions (first ++ second) = ownDescriptions first ++ ownDescriptions second :=
  List.filterMap_append

namespace Exchange

variable {isCaller : Bool} {phase : Phase} {done : List Operation} {d : Description}

/-- An exchange is the beginning of itself. -/
theorem isLegal (h : Exchange isCaller phase done) : IsLegal done :=
  ⟨isCaller, phase, done, h, List.prefix_refl _⟩

/-- An offer of the peer takes the place of the offer that this side is about to make. -/
theorem acceptOffer (h : Exchange isCaller .connecting done) (hkind : d.kind = .offer) :
    Exchange isCaller .haveRemoteOffer (done ++ [.setRemote d, .createAnswer]) := by
  cases h with
  | connecting hcaller =>
    have hnext : Exchange isCaller _ _ := .haveRemoteOffer hkind
    rwa [hcaller] at hnext ⊢

/-- The answer of the peer completes the exchange of a caller. -/
theorem acceptAnswer (h : Exchange isCaller .haveLocalOffer done) (hkind : d.kind = .answer) :
    Exchange isCaller .connected (done ++ [.setRemote d]) := by
  cases h with
  | haveLocalOffer hcaller hoffer => exact .answered hcaller hoffer hkind

/-- The offer of this side comes after nothing but the wish for it. -/
theorem makeOffer (h : Exchange isCaller .connecting done) (hkind : d.kind = .offer) :
    Exchange isCaller .haveLocalOffer (done ++ [.setLocal d]) := by
  cases h with
  | connecting hcaller => exact .haveLocalOffer hcaller hkind

/-- The answer of this side completes the exchange that the peer has begun. -/
theorem makeAnswer (h : Exchange isCaller .haveRemoteOffer done) (hkind : d.kind = .answer) :
    Exchange isCaller .connected (done ++ [.setLocal d]) := by
  cases h with
  | haveRemoteOffer hoffer =>
    rw [List.append_assoc]
    exact .accepted hoffer hkind

/-- This side makes its description in the step that leaves the first two of these phases. -/
theorem ownDescriptions_eq_nil (h : Exchange isCaller phase done)
    (hphase : phase = .connecting ∨ phase = .haveRemoteOffer) : ownDescriptions done = [] := by
  cases h with
  | connecting => rfl
  | haveRemoteOffer => cases isCaller <;> rfl
  | _ => simp at hphase

/-- An exchange has at most one description of each side, and they are of different kinds. -/
theorem descriptions (h : Exchange isCaller phase done) :
    (ownDescriptions done).length ≤ 1 ∧ (peerDescriptions done).length ≤ 1 ∧
      ∀ own ∈ ownDescriptions done, ∀ other ∈ peerDescriptions done, own.kind ≠ other.kind := by
  cases h with
  | connecting | haveLocalOffer =>
    simp [ownDescriptions, peerDescriptions, List.filterMap_cons, Operation.setLocal?,
      Operation.setRemote?]
  | answered _ hoffer hanswer =>
    simp [ownDescriptions, peerDescriptions, List.filterMap_cons, Operation.setLocal?,
      Operation.setRemote?, hoffer, hanswer]
  | haveRemoteOffer =>
    cases isCaller <;> simp [preamble, ownDescriptions, peerDescriptions, List.filterMap_cons,
      Operation.setLocal?, Operation.setRemote?]
  | accepted hoffer hanswer =>
    cases isCaller <;> simp [preamble, ownDescriptions, peerDescriptions, List.filterMap_cons,
      Operation.setLocal?, Operation.setRemote?, hoffer, hanswer]

end Exchange

/-- Nothing is the beginning of an exchange. -/
theorem isLegal_nil : IsLegal [] := ⟨true, _, _, .connecting rfl, List.nil_prefix⟩

/-- So has the beginning of an exchange. -/
theorem IsLegal.descriptions {operations : List Operation} (h : IsLegal operations) :
    (ownDescriptions operations).length ≤ 1 ∧ (peerDescriptions operations).length ≤ 1 ∧
      ∀ own ∈ ownDescriptions operations, ∀ other ∈ peerDescriptions operations,
        own.kind ≠ other.kind := by
  obtain ⟨isCaller, phase, whole, hwhole, hbegins⟩ := h
  obtain ⟨hown, hpeer, hkinds⟩ := hwhole.descriptions
  have howns : ownDescriptions operations <+: ownDescriptions whole := hbegins.filterMap _
  have hpeers : peerDescriptions operations <+: peerDescriptions whole := hbegins.filterMap _
  exact ⟨Nat.le_trans howns.length_le hown, Nat.le_trans hpeers.length_le hpeer,
    fun own ho other hp => hkinds own (howns.subset ho) other (hpeers.subset hp)⟩

namespace Agent

variable {settings : Settings} {a : Agent} {r : Replies} {event : Event}
  {x : Agent × List Effect} {id : ConnId}

/-- The operations of the exchange that are handed to the link of a connection, in order. -/
def exchanged (id : ConnId) (effects : List Effect) : List Operation :=
  (submitted id effects).filter Operation.negotiates

/-- The messages that an event adds to the outbox. -/
def written (a : Agent) : Event → List Message
  | .link id (.candidate c) => if a.live.map (·.id) = some id then [.candidate c] else []
  | .outcome id (.localReady d) =>
    if a.live.map (·.id) = some id ∧ (a.call.phase = .connecting ∧ d.kind = .offer ∨
        a.call.phase = .haveRemoteOffer ∧ d.kind = .answer) then
      [.description d]
    else []
  | _ => []

/-- The descriptions among them. -/
def announced (a : Agent) (event : Event) : List Description :=
  (a.written event).filterMap Message.description?

/-! ## One step -/

/-- What an event queues is the text of what it writes. -/
theorem queued_eq_map : a.queued event = (a.written event).map Message.encode := by
  cases event with
  | link id news =>
    cases news with
    | candidate => simp [queued, written, apply_ite (List.map Message.encode)]
    | _ => rfl
  | outcome id outcome =>
    cases outcome with
    | localReady => simp [queued, written, apply_ite (List.map Message.encode)]
    | _ => rfl
  | _ => rfl

/-- The operations of the exchange come one after another. -/
theorem exchanged_append (first second : List Effect) :
    exchanged id (first ++ second) = exchanged id first ++ exchanged id second := by
  simp [exchanged, submitted_append]

/-- Of the operations that are handed to a connection some belong to its exchange. -/
theorem exchanged_map {other : ConnId} (operations : List Operation) :
    exchanged id (operations.map (.submit other)) =
      if other = id then operations.filter Operation.negotiates else [] := by
  rw [exchanged, submitted_map]
  split <;> rfl

/-- Without operations there is no exchange. -/
theorem exchanged_of_submitted {effects : List Effect} (h : submitted id effects = []) :
    exchanged id effects = [] := by
  simp [exchanged, h]

/-- An event that has not to be heeded announces no description. -/
theorem announced_of_ignores (ha : a.Coherent) (hignores : a.Ignores settings event) :
    a.announced event = [] := by
  have hnone : (a.written event).map Message.encode = [] :=
    queued_eq_map.symm.trans (queued_of_ignores ha hignores)
  rw [announced, List.map_eq_nil_iff.mp hnone]
  rfl

/-- A candidate is no description. -/
theorem announced_ownCandidate {c : Candidate} :
    a.announced (.link id (.candidate c)) = [] := by
  have hwritten : a.written (.link id (.candidate c)) =
      if a.live.map (·.id) = some id then [.candidate c] else [] := rfl
  rw [announced, hwritten]
  split_ifs <;> rfl

/-- A description of this side that fits the phase is announced. -/
theorem announced_localReady {l : Live} {d : Description} (hl : a.live = some l)
    (hfits : a.call.phase = .connecting ∧ d.kind = .offer ∨
      a.call.phase = .haveRemoteOffer ∧ d.kind = .answer) :
    a.announced (.outcome l.id (.localReady d)) = [d] := by
  have hwritten : a.written (.outcome l.id (.localReady d)) = [.description d] :=
    if_pos ⟨by simp [hl], hfits⟩
  rw [announced, hwritten]
  rfl

/-- A description of this side is announced, and the worker refuses to apply it: the one operation
that the event asks for, which is to apply this description, is not taken. -/
structure Unapplied (a : Agent) (event : Event) (r : Replies) (l : Live) (d : Description) :
    Prop where
  event_eq : event = .outcome l.id (.localReady d)
  asks : ∃ peer, Asks a l peer event [.setLocal d]
  phase : a.call.phase = .connecting ∨ a.call.phase = .haveRemoteOffer
  announced_eq : a.announced event = [d]
  isDead : r.isDead 0 l.id = true

/-- What a step does to the exchange of a connection. -/
inductive Trades (r : Replies) (a : Agent) (event : Event) (x : Agent × List Effect) : Prop
  | free (hl : a.live = none)
      (hnew : ∀ l, x.1.live = some l →
        Exchange x.1.call.isCaller x.1.call.phase (exchanged l.id x.2))
      (hlegal : ∀ id, IsLegal (exchanged id x.2))
      (hown : ∀ id, ownDescriptions (exchanged id x.2) = [])
  | goesOn {l l' : Live} (hl : a.live = some l) (hlive : x.1.live = some l')
      (hexchange : ∀ done, Exchange a.call.isCaller a.call.phase done →
        Exchange x.1.call.isCaller x.1.call.phase (done ++ exchanged l.id x.2))
      (hown : a.announced event = ownDescriptions (exchanged l.id x.2))
  | ends {l : Live} (hl : a.live = some l) (hlive : x.1.live = none)
      (hlegal : ∀ done, Exchange a.call.isCaller a.call.phase done →
        IsLegal (done ++ exchanged l.id x.2))
      (hown : a.announced event = ownDescriptions (exchanged l.id x.2) ∨
        submitted l.id x.2 = [] ∧ ∃ d, Unapplied a event r l d)

/-- The operations that an event asks for go on with the exchange. -/
theorem Asks.exchange {l : Live} {peer : String} {operations done : List Operation}
    (h : Asks a l peer event operations) (hdone : Exchange a.call.isCaller a.call.phase done) :
    ∃ phase, Exchange a.call.isCaller phase (done ++ operations.filter Operation.negotiates) := by
  cases h with
  | offer _ hphase hkind =>
    rw [hphase] at hdone
    exact ⟨_, hdone.acceptOffer hkind⟩
  | answer _ hphase hkind =>
    rw [hphase] at hdone
    exact ⟨_, hdone.acceptAnswer hkind⟩
  | localOffer hphase hkind =>
    rw [hphase] at hdone
    exact ⟨_, hdone.makeOffer hkind⟩
  | localAnswer hphase hkind =>
    rw [hphase] at hdone
    exact ⟨_, hdone.makeAnswer hkind⟩
  | candidate => exact ⟨a.call.phase, by simpa [Operation.negotiates] using hdone⟩
  | release =>
    refine ⟨a.call.phase, ?_⟩
    simpa [List.filter_map, Function.comp_def, Operation.negotiates] using hdone

/-- A description that an event announces is the first thing that its operations apply. -/
theorem Asks.announced {l : Live} {peer : String} {taken left : List Operation}
    {refused : Operation} (hl : a.live = some l)
    (h : Asks a l peer event (taken ++ refused :: left))
    (hdead : r.isDead taken.length l.id = true) :
    a.announced event = ownDescriptions (taken.filter Operation.negotiates) ∨
      taken = [] ∧ ∃ d, Unapplied a event r l d := by
  have hown {operations : List Operation} (hnone : ∀ operation ∈ operations,
      operation.setLocal? = none) (hsplit : taken ++ refused :: left = operations) :
      ownDescriptions (taken.filter Operation.negotiates) = [] := by
    refine List.filterMap_eq_nil_iff.mpr fun operation htaken => hnone operation ?_
    rw [← hsplit]
    exact List.mem_append_left _ (List.mem_filter.mp htaken).1
  have hfirst {d : Description} (hsplit : taken ++ refused :: left = [.setLocal d]) :
      taken = [] := by
    cases taken with
    | nil => rfl
    | cons => simp at hsplit
  generalize hsplit : taken ++ refused :: left = operations at h
  cases h with
  | localOffer hphase hkind =>
    obtain rfl := hfirst hsplit
    exact Or.inr ⟨rfl, _, rfl, ⟨peer, .localOffer hphase hkind⟩, Or.inl hphase,
      announced_localReady hl (Or.inl ⟨hphase, hkind⟩), hdead⟩
  | localAnswer hphase hkind =>
    obtain rfl := hfirst hsplit
    exact Or.inr ⟨rfl, _, rfl, ⟨peer, .localAnswer hphase hkind⟩, Or.inr hphase,
      announced_localReady hl (Or.inr ⟨hphase, hkind⟩), hdead⟩
  | offer | answer | candidate =>
    rw [hown (by simp [Operation.setLocal?]) hsplit]
    exact Or.inl rfl
  | release =>
    rw [hown (by simp [Operation.setLocal?]) hsplit]
    exact Or.inl rfl

/-- A step that leaves the exchange where it is. -/
theorem trades_of_same (hlive : x.1.live.isSome = a.live.isSome)
    (hphase : a.live.isSome → x.1.call.phase = a.call.phase)
    (hcaller : x.1.call.isCaller = a.call.isCaller) (hannounced : a.announced event = [])
    (hexchanged : ∀ id, exchanged id x.2 = []) : Trades r a event x := by
  cases hl : a.live with
  | none =>
    rw [hl, Option.isSome_none, Option.isSome_eq_false_iff, Option.isNone_iff_eq_none] at hlive
    refine .free hl (by simp [hlive]) (fun id => ?_) fun id => ?_
    all_goals rw [hexchanged]
    · exact isLegal_nil
    · rfl
  | some l =>
    rw [hl, Option.isSome_some] at hlive
    obtain ⟨l', hl'⟩ := Option.isSome_iff_exists.mp hlive
    refine .goesOn hl hl' (fun done hdone => ?_) (by rw [hannounced, hexchanged]; rfl)
    rwa [hphase (by simp [hl]), hcaller, hexchanged, List.append_nil]

/-- A step that goes on with the exchange by operations that it hands over. -/
theorem trades_of_submitted {l l' : Live} (operations : List Operation) (hl : a.live = some l)
    (hlive : x.1.live = some l') (hsubmitted : submitted l.id x.2 = operations)
    (hexchange : ∀ done, Exchange a.call.isCaller a.call.phase done →
      Exchange x.1.call.isCaller x.1.call.phase (done ++ operations.filter Operation.negotiates))
    (hannounced : a.announced event =
      ownDescriptions (operations.filter Operation.negotiates)) : Trades r a event x := by
  have hexchanged : exchanged l.id x.2 = operations.filter Operation.negotiates := by
    rw [exchanged, hsubmitted]
  exact .goesOn hl hlive (fun done hdone => hexchanged ▸ hexchange done hdone)
    (hannounced.trans (congrArg _ hexchanged.symm))

/-- A step that ends a call without going on with the exchange. -/
theorem trades_of_end {l : Live} (hl : a.live = some l) (hlive : x.1.live = none)
    (hannounced : a.announced event = []) (hexchanged : exchanged l.id x.2 = []) :
    Trades r a event x := by
  refine .ends hl hlive (fun done hdone => ?_) (Or.inl (by rw [hannounced, hexchanged]; rfl))
  rw [hexchanged, List.append_nil]
  exact hdone.isLegal

/-- The operations with which a call begins are the beginning of an exchange. -/
theorem exchange_openingOperations {peer : String} {offer : Option Description}
    (hopening : a.opening settings event = some (peer, offer)) :
    Exchange (a.opened peer offer).call.isCaller (a.opened peer offer).call.phase
      (openingOperations offer) := by
  cases offer with
  | none => exact .connecting rfl
  | some d =>
    have hkind : d.kind = .offer := by
      unfold opening at hopening
      grind
    exact .haveRemoteOffer hkind

/-- The operations that open a call belong to the exchange and apply nothing on this side. -/
theorem mem_openingOperations {offer : Option Description} :
    ∀ operation ∈ openingOperations offer,
      operation.negotiates = true ∧ operation.setLocal? = none := by
  cases offer <;> simp [openingOperations, Operation.negotiates, Operation.setLocal?]

/-- A step that begins a call hands over the first operations of an exchange. -/
theorem trades_of_opening {peer : String} {offer : Option Description} {taken : List Operation}
    (hl : a.live = none) (hopening : a.opening settings event = some (peer, offer))
    (htaken : taken <+: openingOperations offer)
    (hnew : ∀ l, x.1.live = some l →
      x.1 = a.opened peer offer ∧ taken = openingOperations offer)
    (hsubmitted : ∀ id, submitted id x.2 = if a.issued + 1 = id then taken else []) :
    Trades r a event x := by
  have hmem (operation : Operation) (h : operation ∈ taken) :=
    mem_openingOperations operation (htaken.subset h)
  have hexchanged (id : ConnId) :
      exchanged id x.2 = if a.issued + 1 = id then taken else [] := by
    rw [exchanged, hsubmitted, List.filter_eq_self]
    intro operation h
    split_ifs at h
    · exact (hmem operation h).1
    · simp at h
  have hexchange := exchange_openingOperations hopening
  refine .free hl (fun l hlive => ?_) (fun id => ?_) fun id => ?_
  all_goals rw [hexchanged]
  · obtain ⟨hopened, rfl⟩ := hnew l hlive
    rw [hopened] at hlive ⊢
    obtain rfl : { id := a.issued + 1 } = l := Option.some.inj hlive
    rwa [if_pos rfl]
  · split_ifs
    · exact ⟨_, _, _, hexchange, htaken⟩
    · exact isLegal_nil
  · split_ifs
    · exact List.filterMap_eq_nil_iff.mpr fun operation h => (hmem operation h).2
    · rfl

/-- Every stride goes on with the exchange, leaves it, or begins one. -/
theorem Stride.trades (ha : a.Coherent) (hx : Stride settings r a event x) :
    Trades r a event x := by
  cases hx with
  | quiet hignores =>
    exact trades_of_same rfl (fun _ => rfl) rfl (announced_of_ignores ha hignores)
      fun id => exchanged_of_submitted (submitted_warnings _)
  | @opened _ peer offer hphase hopening =>
    refine trades_of_opening (ha.live_of_idle hphase) hopening (List.prefix_refl _)
      (fun _ _ => ⟨rfl, rfl⟩) fun id => ?_
    rw [submitted_cons, submitted_cons, submitted_append, submitted_map]
    cases offer <;> exact List.append_nil _
  | notCreated hphase hopening =>
    have hl := ha.live_of_idle hphase
    refine trades_of_opening hl hopening List.nil_prefix (by simp [hl]) fun id => ?_
    rw [ite_self, submitted_cons, submitted_cons, submitted_cons, submitted_parting]
    rfl
  | notOpened hphase hopening _ hsplit =>
    have hl := ha.live_of_idle hphase
    refine trades_of_opening hl hopening ?_ (by simp [hl]) fun id => submitted_failure
    rw [hsplit]
    exact List.prefix_append _ _
  | @offerAccepted l _ _ d hl _ _ hphase hkind =>
    refine trades_of_submitted [.setRemote d, .createAnswer] hl hl
      (by simp [submitted, List.filterMap_cons, Effect.operationFor?]) (fun done hdone => ?_) rfl
    rw [hphase] at hdone
    exact hdone.acceptOffer hkind
  | @answerAccepted l _ _ d hl _ _ hphase hkind =>
    refine trades_of_submitted [.setRemote d] hl hl
      (by simp [submitted, List.filterMap_cons, Effect.operationFor?]) (fun done hdone => ?_) rfl
    rw [hphase] at hdone
    exact hdone.acceptAnswer hkind
  | candidateKept hl => exact trades_of_same (by simp [hl]) (fun _ => rfl) rfl rfl fun id => rfl
  | @candidatePassed l _ _ c hl =>
    refine trades_of_same rfl (fun _ => rfl) rfl rfl fun id => ?_
    exact (exchanged_map [.addCandidate c]).trans (ite_self _)
  | @released l _ hl =>
    refine trades_of_same (by simp [hl]) (fun _ => rfl) rfl rfl fun id => ?_
    have hnone :
        (l.remote.waiting.map Operation.addCandidate).filter Operation.negotiates = [] := by
      simp [Operation.negotiates]
    have hall : exchanged id ((l.remote.waiting.map Operation.addCandidate).map (.submit l.id)) =
        [] := by rw [exchanged_map, hnone, ite_self]
    rwa [List.map_map] at hall
  | flushed hl hevent =>
    have hannounced : a.announced event = [] := by
      rcases hevent with rfl | ⟨other, rfl⟩ <;> rfl
    exact trades_of_same (by rw [flush_live]) (fun _ => flush_phase) flush_isCaller hannounced
      fun id => exchanged_of_submitted submitted_flush
  | signedInDuringCall hl =>
    exact trades_of_same (by rw [flush_live]) (fun _ => flush_phase) flush_isCaller rfl
      fun id => exchanged_of_submitted submitted_flush
  | ownCandidate hl =>
    exact trades_of_same (by rw [flush_live, hl]; rfl) (fun _ => flush_phase) flush_isCaller
      announced_ownCandidate fun id => exchanged_of_submitted submitted_flush
  | @offerMade l d hl hphase hkind =>
    rw [finish_after]
    refine trades_of_submitted [.setLocal d] hl (flush_live.trans hl) ?_
      (fun done hdone => ?_) (announced_localReady hl (Or.inl ⟨hphase, hkind⟩))
    · rw [submitted_append, submitted_flush]
      simp [submitted, List.filterMap_cons, Effect.operationFor?]
    · rw [hphase] at hdone
      rw [flush_phase, flush_isCaller]
      exact hdone.makeOffer hkind
  | @answerMade l d hl hphase hkind =>
    rw [finish_after]
    refine trades_of_submitted [.setLocal d] hl (flush_live.trans hl) ?_
      (fun done hdone => ?_) (announced_localReady hl (Or.inr ⟨hphase, hkind⟩))
    · rw [submitted_append, submitted_flush]
      simp [submitted, List.filterMap_cons, Effect.operationFor?]
    · rw [hphase] at hdone
      rw [flush_phase, flush_isCaller]
      exact hdone.makeAnswer hkind
  | @broken l _ _ taken left refused hl hpeer hasks hdead =>
    have hsubmitted : submitted l.id (taken.map (.submit l.id) ++ .warn (.fatal .closed) ::
        a.parting (some LinkError.closed.message)) = taken := by
      rw [submitted_failure, if_pos rfl]
    have hexchanged : exchanged l.id (taken.map (.submit l.id) ++ .warn (.fatal .closed) ::
        a.parting (some LinkError.closed.message)) = taken.filter Operation.negotiates := by
      rw [exchanged, hsubmitted]
    refine .ends hl rfl (fun done hdone => ?_) ?_
    · obtain ⟨phase, hwhole⟩ := hasks.exchange hdone
      rw [hexchanged]
      refine ⟨_, phase, _, hwhole, (List.prefix_append_right_inj done).mpr ?_⟩
      rw [List.filter_append]
      exact List.prefix_append _ _
    · rw [hexchanged]
      rcases hasks.announced hl hdead with hown | ⟨hnothing, hunapplied⟩
      · exact Or.inl hown
      · exact Or.inr ⟨hsubmitted.trans hnothing, hunapplied⟩
  | failed hl hfailure =>
    have hannounced : a.announced event = [] := by
      cases hfailure <;> rfl
    refine trades_of_end hl rfl hannounced (exchanged_of_submitted ?_)
    rw [submitted_append, submitted_warnings, submitted_cons, submitted_parting]
    rfl
  | left hl hpeer hleaves =>
    have hannounced : a.announced event = [] := by
      cases hleaves <;> rfl
    exact trades_of_end hl rfl hannounced
      (exchanged_of_submitted (submitted_parting : submitted _ (a.parting none) = []))
  | hungUp hl =>
    exact trades_of_end hl rfl rfl
      (exchanged_of_submitted (submitted_parting : submitted _ (a.parting none) = []))
  | closed hl =>
    refine trades_of_end hl rfl rfl (exchanged_of_submitted ?_)
    rw [submitted_cons, submitted_append, submitted_parting]
    split <;> rfl
  | signedIn hl | signedOut hl =>
    refine trades_of_same rfl (by simp [hl]) ?_ rfl fun id => exchanged_of_submitted ?_
    · rw [ha.isCaller_eq_false (ha.isLive_eq_false hl)]
    · dsimp only
      split_ifs <;> rfl
  | signInFailed =>
    refine trades_of_same rfl (fun hsome => ?_) rfl rfl fun id => exchanged_of_submitted ?_
    · have hphase : a.call.phase ≠ .awaitingSignIn := by
        intro h
        simpa [h, Phase.isLive] using ha.live_iff.mp hsome
      exact if_neg hphase
    · dsimp only
      split_ifs <;> rfl
  | signIn hphase =>
    refine trades_of_same rfl (fun hsome => ?_) rfl rfl fun id => rfl
    simp [ha.live_of_idle hphase] at hsome
  | records =>
    refine trades_of_same rfl (fun _ => rfl) rfl rfl fun id => exchanged_of_submitted ?_
    simp [submitted, Effect.operationFor?]
  | trackAdded | trackRemoved | signInRefused =>
    exact trades_of_same rfl (fun _ => rfl) rfl rfl fun id => rfl

/-! ## Runs -/

/-- All messages that were added to the outbox in some steps. -/
def writtenIn (steps : List Moment) : List Message :=
  steps.flatMap fun m => m.before.written m.event

/-- What some steps queue is the text of what they write. -/
theorem queuedIn_eq_map (steps : List Moment) :
    queuedIn steps = (writtenIn steps).map Message.encode := by
  simp [queuedIn, writtenIn, List.map_flatMap, queued_eq_map]

/-- The descriptions among them. -/
def announcedIn (steps : List Moment) : List Description :=
  (writtenIn steps).filterMap Message.description?

/-- A step announces its descriptions after those of the steps before. -/
theorem announcedIn_append (steps : List Moment) (m : Moment) :
    announcedIn (steps ++ [m]) = announcedIn steps ++ m.before.announced m.event := by
  simp [announcedIn, writtenIn, announced]

/-- A step goes on with the exchange where the steps before have left it. -/
theorem exchanged_effectsOf_append (past : List Moment) (m : Moment) :
    exchanged id (effectsOf (past ++ [m])) =
      exchanged id (effectsOf past) ++ exchanged id m.effects := by
  rw [effectsOf_append, exchanged_append]

/-- The one description of this side was announced in the step in which the worker of the
connection refused to apply it: the step asked for this one operation, the worker was dead, and
nothing was handed over. The step has ended the session. -/
def Refused (id : ConnId) (past : List Moment) : Prop :=
  ∃ m ∈ during id past, ∃ l peer d, m.before.live = some l ∧ l.id = id ∧
    m.event = .outcome id (.localReady d) ∧ Asks m.before l peer m.event [.setLocal d] ∧
    m.replies.isDead 0 id = true ∧ submitted id m.effects = [] ∧ m.after.live = none ∧
    announcedIn (during id past) = [d] ∧ ownDescriptions (exchanged id (effectsOf past)) = []

/-- The exchange of a connection is the beginning of a legal one, and its description of this side
is the one that was announced. -/
structure Accounted (id : ConnId) (past : List Moment) : Prop where
  legal : IsLegal (exchanged id (effectsOf past))
  announced : announcedIn (during id past) = ownDescriptions (exchanged id (effectsOf past)) ∨
    Refused id past

/-- What has become of the exchanges of a run. -/
structure Negotiated (past : List Moment) (a : Agent) : Prop where
  live : ∀ l, a.live = some l →
    Exchange a.call.isCaller a.call.phase (exchanged l.id (effectsOf past)) ∧
      announcedIn (during l.id past) = ownDescriptions (exchanged l.id (effectsOf past))
  all : ∀ id, Accounted id past

/-- A step that hands nothing to a connection, and is not one of its session, leaves its exchange
as it is. -/
theorem Accounted.other {past : List Moment} {m : Moment} (h : Accounted id past)
    (hlive : m.before.live.map (·.id) ≠ some id) (hsubmitted : submitted id m.effects = []) :
    Accounted id (past ++ [m]) := by
  have hexchanged : exchanged id (effectsOf (past ++ [m])) = exchanged id (effectsOf past) := by
    rw [exchanged_effectsOf_append, exchanged_of_submitted hsubmitted, List.append_nil]
  have hduring : during id (past ++ [m]) = during id past := by
    rw [during_append, if_neg hlive, List.append_nil]
  refine ⟨?_, ?_⟩
  · rw [hexchanged]
    exact h.legal
  · rw [Refused, hexchanged, hduring]
    exact h.announced

section Step

variable {past : List Moment} {l : Live}

/-- A step of a call leaves the exchanges of other connections as they are. -/
theorem Negotiated.other (ha : a.Coherent) (h : Negotiated past a) (hl : a.live = some l)
    (hid : id ≠ l.id) : Accounted id (past ++ [a.moment settings event r]) := by
  have hstride : Stride settings r a event _ := step_stride ha event
  refine (h.all id).other ?_ (hstride.submitted_other ha hl hid)
  simpa [moment, hl] using Ne.symm hid

/-- A step that goes on with the exchange of the live connection. -/
theorem Negotiated.goesOn (ha : a.Coherent) (h : Negotiated past a) (hl : a.live = some l)
    (hexchange : ∀ done, Exchange a.call.isCaller a.call.phase done →
      Exchange (a.step settings r event).1.call.isCaller (a.step settings r event).1.call.phase
        (done ++ exchanged l.id (a.step settings r event).2))
    (hown : a.announced event =
      ownDescriptions (exchanged l.id (a.step settings r event).2)) :
    Negotiated (past ++ [a.moment settings event r]) (a.step settings r event).1 := by
  have hstride : Stride settings r a event _ := step_stride ha event
  obtain ⟨hdone, hannounced⟩ := h.live l hl
  have hnext : Exchange (a.step settings r event).1.call.isCaller
      (a.step settings r event).1.call.phase
      (exchanged l.id (effectsOf (past ++ [a.moment settings event r]))) := by
    rw [exchanged_effectsOf_append]
    exact hexchange _ hdone
  have hall : announcedIn (during l.id (past ++ [a.moment settings event r])) =
      ownDescriptions (exchanged l.id (effectsOf (past ++ [a.moment settings event r]))) := by
    rw [during_of_live hl, announcedIn_append, hannounced, exchanged_effectsOf_append,
      ownDescriptions_append]
    exact congrArg _ hown
  refine ⟨fun l'' hl'' => ?_, fun id => ?_⟩
  · rw [hstride.id_eq ha hl hl'']
    exact ⟨hnext, hall⟩
  · by_cases hid : id = l.id
    · subst hid
      exact ⟨hnext.isLegal, Or.inl hall⟩
    · exact h.other ha hl hid

/-- A step that ends the exchange of the live connection. -/
theorem Negotiated.ends (ha : a.Coherent) (h : Negotiated past a) (hl : a.live = some l)
    (hlive : (a.step settings r event).1.live = none)
    (hlegal : ∀ done, Exchange a.call.isCaller a.call.phase done →
      IsLegal (done ++ exchanged l.id (a.step settings r event).2))
    (hown : a.announced event = ownDescriptions (exchanged l.id (a.step settings r event).2) ∨
      submitted l.id (a.step settings r event).2 = [] ∧ ∃ d, Unapplied a event r l d) :
    Negotiated (past ++ [a.moment settings event r]) (a.step settings r event).1 := by
  obtain ⟨hdone, hannounced⟩ := h.live l hl
  refine ⟨by simp [hlive], fun id => ?_⟩
  by_cases hid : id = l.id
  · subst hid
    refine ⟨?_, ?_⟩
    · rw [exchanged_effectsOf_append]
      exact hlegal _ hdone
    · rw [Refused, exchanged_effectsOf_append, during_of_live hl, announcedIn_append, hannounced,
        ownDescriptions_append]
      rcases hown with hown | ⟨hnothing, d, hevent, ⟨peer, hasks⟩, hphase, hone, hdead⟩
      · exact Or.inl (congrArg _ hown)
      · have hpast := hdone.ownDescriptions_eq_nil hphase
        refine Or.inr ⟨_, List.mem_append_right _ (List.mem_singleton_self _), l, peer, d, hl, rfl,
          hevent, hasks, hdead, hnothing, hlive, ?_, ?_⟩
        · rw [hpast]
          exact hone
        · rw [hpast]
          exact congrArg ownDescriptions (exchanged_of_submitted hnothing)
  · exact h.other ha hl hid

/-- A step without a call may begin an exchange, on a connection that has none yet. -/
theorem Negotiated.begins (ha : a.Coherent) (h : Negotiated past a)
    (hsorted : Sorted settings past a)
    (hfresh : ∀ id, a.issued < id → submitted id (effectsOf past) = []) (hl : a.live = none)
    (hnew : ∀ l, (a.step settings r event).1.live = some l →
      Exchange (a.step settings r event).1.call.isCaller (a.step settings r event).1.call.phase
        (exchanged l.id (a.step settings r event).2))
    (hlegal : ∀ id, IsLegal (exchanged id (a.step settings r event).2))
    (hown : ∀ id, ownDescriptions (exchanged id (a.step settings r event).2) = []) :
    Negotiated (past ++ [a.moment settings event r]) (a.step settings r event).1 := by
  have hstride : Stride settings r a event _ := step_stride ha event
  have hnone (id : ConnId) : (a.moment settings event r).before.live.map (·.id) ≠ some id := by
    simp [moment, hl]
  have hlater (id : ConnId) (hid : a.issued < id) :
      exchanged id (effectsOf (past ++ [a.moment settings event r])) =
          exchanged id (a.step settings r event).2 ∧
        announcedIn (during id (past ++ [a.moment settings event r])) = [] := by
    rw [exchanged_effectsOf_append, exchanged_of_submitted (hfresh id hid), during_append,
      if_neg (hnone id), hsorted.fresh id hid]
    exact ⟨rfl, rfl⟩
  refine ⟨fun l hlive => ?_, fun id => ?_⟩
  · have hid : a.issued < l.id := by
      cases hstride.passage ha with
      | begins _ hbegun =>
        obtain rfl : { id := a.issued + 1 } = l := Option.some.inj (hbegun.symm.trans hlive)
        exact Nat.lt_succ_self _
      | rests _ hnone | ends _ hnone => simp [hnone] at hlive
      | goesOn hsome => simp [hl] at hsome
    obtain ⟨hexchanged, hannounced⟩ := hlater l.id hid
    rw [hexchanged, hannounced, hown]
    exact ⟨hnew l hlive, rfl⟩
  · rcases Nat.lt_or_ge a.issued id with hid | hid
    · obtain ⟨hexchanged, hannounced⟩ := hlater id hid
      refine ⟨?_, Or.inl ?_⟩
      · rw [hexchanged]
        exact hlegal id
      · rw [hexchanged, hannounced, hown]
    · exact (h.all id).other (hnone id) (hstride.submitted_eq_nil (hnone id) (Or.inl hid))

/-- Every step goes on with the exchange of the live connection, ends it, or begins one. -/
theorem Negotiated.step (ha : a.Coherent) (hsorted : Sorted settings past a)
    (hfresh : ∀ id, a.issued < id → submitted id (effectsOf past) = [])
    (h : Negotiated past a) (event : Event) (r : Replies) :
    Negotiated (past ++ [a.moment settings event r]) (a.step settings r event).1 := by
  have hstride : Stride settings r a event _ := step_stride ha event
  cases hstride.trades ha with
  | free hl hnew hlegal hown => exact h.begins ha hsorted hfresh hl hnew hlegal hown
  | goesOn hl _ hexchange hown => exact h.goesOn ha hl hexchange hown
  | ends hl hlive hlegal hown => exact h.ends ha hl hlive hlegal hown

end Step

/-- Every run accounts for its exchanges, by induction on its steps. -/
theorem run_negotiated (script : List (Event × Replies)) :
    Negotiated (history settings script {}) (run settings script {}).1 := by
  induction script using List.reverseRecOn with
  | nil => exact ⟨by simp [run], fun _ => ⟨isLegal_nil, Or.inl rfl⟩⟩
  | append_singleton script input ih =>
    obtain ⟨event, r⟩ := input
    rw [run_concat, history_concat]
    exact ih.step (coherent_run script) (run_sorted settings script) (run_submitted_fresh script)
      event r

/-- In every run, the phase of the call tells exactly which operations of the exchange have been
handed to the link of the live connection. No connection ever gets two descriptions of one side, or
two of one kind. At most one description is queued for the peer in a session, and it is the one that
is applied on this side. If the worker refuses to apply it, none is applied, and the step in which
it was queued ends the call. -/
theorem run_exchange (settings : Settings) (script : List (Event × Replies)) :
    let past := history settings script {}
    let a := (run settings script {}).1
    (∀ l, a.live = some l →
      Exchange a.call.isCaller a.call.phase (exchanged l.id (effectsOf past)) ∧
        delivered (posted (during l.id past)) ++ a.call.outbox =
          (writtenIn (during l.id past)).map Message.encode ∧
        announcedIn (during l.id past) = ownDescriptions (exchanged l.id (effectsOf past))) ∧
    ∀ id,
      (ownDescriptions (exchanged id (effectsOf past))).length ≤ 1 ∧
        (peerDescriptions (exchanged id (effectsOf past))).length ≤ 1 ∧
        (∀ own ∈ ownDescriptions (exchanged id (effectsOf past)),
          ∀ other ∈ peerDescriptions (exchanged id (effectsOf past)), own.kind ≠ other.kind) ∧
        (announcedIn (during id past)).length ≤ 1 ∧
        (announcedIn (during id past) = ownDescriptions (exchanged id (effectsOf past)) ∨
          Refused id past) := by
  intro past a
  have hnegotiated : Negotiated past a := run_negotiated script
  have hsorted : Sorted settings past a := run_sorted settings script
  refine ⟨fun l hl => ?_, fun id => ?_⟩
  · obtain ⟨hexchange, hannounced⟩ := hnegotiated.live l hl
    refine ⟨hexchange, ?_, hannounced⟩
    rw [← queuedIn_eq_map]
    exact ((hsorted.live l hl).delivery.live (by simp [hl])).1
  · obtain ⟨hlegal, hannounced⟩ := hnegotiated.all id
    obtain ⟨hown, hpeer, hkinds⟩ := hlegal.descriptions
    refine ⟨hown, hpeer, hkinds, ?_, hannounced⟩
    rcases hannounced with heq | ⟨m, -, l, peer, d, -, -, -, -, -, -, -, hone, -⟩
    · rwa [heq]
    · rw [hone]
      exact Nat.le_refl 1

/-- A call that bob has offered. The worker dies while it adds his candidate, when it has made the
answer already. -/
def deadWorker : List (Event × Replies) :=
  [(.bus (.message "bob" "\x7b\"type\":\"offer\",\"sdp\":\"v=0\"\x7d"), {}),
    (.bus (.message "bob"
      "\x7b\"candidate\":\"c\",\"sdpMid\":null,\"sdpMLineIndex\":null\x7d"), {}),
    (.outcome 1 (.remoteApplied .offer), {}),
    (.outcome 1 (.localReady ⟨.answer, "v=1"⟩), { isDead := fun _ _ => true })]

/-- The answer is queued for bob, but the worker refuses to apply it, and the call ends. -/
theorem announces_deadWorker :
    let past := history Settings.default deadWorker {}
    announcedIn (during 1 past) = [⟨.answer, "v=1"⟩] ∧
      exchanged 1 (effectsOf past) = [.setRemote ⟨.offer, "v=0"⟩, .createAnswer] ∧
      ownDescriptions (exchanged 1 (effectsOf past)) = [] ∧
      (run Settings.default deadWorker {}).1.call.phase = .idle := by
  decide +kernel

end Agent

end PeerCall
