import PeerCall.Proofs.Agent.Answers
import PeerCall.Proofs.World.Course

/-!
# The candidates of this side

A peer that has no call yet throws candidates away, so the description of this side has to reach it
before them. The agent queues its description in the step in which it hands it to the link, and a
link finds candidates only once it applies the description. The outbox keeps the order, however
often a message has to wait.
-/

namespace PeerCall

/-- Messages of which the first is a description and all others are candidates. -/
def Led (messages : List Message) : Prop :=
  messages = [] ∨ ∃ d, ∃ cs : List Candidate, messages = .description d :: cs.map .candidate

namespace Led

variable {messages whole : List Message}

/-- So are the first of such messages. -/
theorem mono (h : Led whole) (hfirst : messages <+: whole) : Led messages := by
  rcases h with rfl | ⟨d, cs, rfl⟩
  · exact Or.inl (List.prefix_nil.mp hfirst)
  · rcases List.prefix_cons_iff.mp hfirst with rfl | ⟨rest, rfl, hrest⟩
    · exact Or.inl rfl
    · refine Or.inr ⟨d, cs.take rest.length, ?_⟩
      rw [List.map_take, ← List.prefix_iff_eq_take.mp hrest]

/-- A candidate may come after a description. -/
theorem candidate (h : Led messages) (hled : messages.filterMap Message.description? ≠ [])
    (c : Candidate) : Led (messages ++ [.candidate c]) := by
  rcases h with rfl | ⟨d, cs, rfl⟩
  · exact absurd rfl hled
  · exact Or.inr ⟨d, cs ++ [c], by simp⟩

/-- The one description comes first. -/
theorem description (h : Led messages) (hnone : messages.filterMap Message.description? = [])
    (d : Description) : Led (messages ++ [.description d]) := by
  rcases h with rfl | ⟨d', cs, rfl⟩
  · exact Or.inr ⟨d, [], rfl⟩
  · simp [Message.description?] at hnone

end Led

namespace Agent

variable {settings : Settings} {a : Agent} {r : Replies} {event : Event} {past : List Moment}

/-- An event adds nothing to the outbox, a candidate of the live connection, or its description. -/
theorem written_cases (a : Agent) (event : Event) :
    a.written event = [] ∨
      (∃ l c, a.live = some l ∧ event = .link l.id (.candidate c) ∧
        a.written event = [.candidate c]) ∨
      ∃ l d, a.live = some l ∧ (a.call.phase = .connecting ∨ a.call.phase = .haveRemoteOffer) ∧
        a.written event = [.description d] := by
  unfold written
  split
  · next id c =>
    split
    · next hlive =>
      obtain ⟨l, hl, rfl⟩ := Option.map_eq_some_iff.mp hlive
      exact Or.inr (Or.inl ⟨l, c, hl, rfl, rfl⟩)
    · exact Or.inl rfl
  · next id d =>
    split
    · next hfits =>
      obtain ⟨hlive, hphase⟩ := hfits
      obtain ⟨l, hl, -⟩ := Option.map_eq_some_iff.mp hlive
      exact Or.inr (Or.inr ⟨l, d, hl, hphase.imp And.left And.left, rfl⟩)
    · exact Or.inl rfl
  · exact Or.inl rfl

/-- A step keeps the description of each session in front, if it hears of a candidate of this side
only once a description of this side has been handed to the link. -/
theorem Ran.led (h : Ran settings past a) (hled : ∀ id, Led (writtenIn (during id past)))
    (hcandidate : ∀ id c, event = .link id (.candidate c) →
      ∃ d, .setLocal d ∈ submitted id (effectsOf past)) (id : ConnId) :
    Led (writtenIn (during id (past ++ [a.moment settings event r]))) := by
  by_cases hlive : a.live.map (·.id) = some id
  · obtain ⟨l, hl, rfl⟩ := Option.map_eq_some_iff.mp hlive
    obtain ⟨hexchange, hannounced⟩ := h.negotiated.live l hl
    have hmore : writtenIn (during l.id (past ++ [a.moment settings event r])) =
        writtenIn (during l.id past) ++ a.written event := by
      rw [during_of_live hl]
      simp only [writtenIn, List.flatMap_append, List.flatMap_singleton, moment]
    rw [hmore]
    rcases a.written_cases event with hnone | ⟨l', c, hl', rfl, hone⟩ | ⟨l', d, -, hphase, hone⟩
    · rw [hnone, List.append_nil]
      exact hled l.id
    · obtain rfl : l = l' := Option.some.inj (hl.symm.trans hl')
      obtain ⟨d, hd⟩ := hcandidate l.id c rfl
      have hown : d ∈ ownDescriptions (exchanged l.id (effectsOf past)) :=
        List.mem_filterMap.mpr ⟨_, List.mem_filter.mpr ⟨hd, rfl⟩, rfl⟩
      rw [← hannounced] at hown
      rw [hone]
      exact (hled l.id).candidate (List.ne_nil_of_mem hown) c
    · have hown := hexchange.ownDescriptions_eq_nil hphase
      rw [← hannounced] at hown
      rw [hone]
      exact (hled l.id).description hown d
  · rw [during_append, if_neg (by exact hlive), List.append_nil]
    exact hled id

/-- The steps of a run that belong to a connection are those of a session, if there are any. -/
theorem Sorted.session (h : Sorted settings past a) (id : ConnId) :
    during id past = [] ∨ ∃ b, Session settings id (during id past) b := by
  by_cases hlive : a.live.map (·.id) = some id
  · obtain ⟨l, hl, rfl⟩ := Option.map_eq_some_iff.mp hlive
    exact Or.inr ⟨a, h.live l hl⟩
  · exact (h.ended id hlive).imp_right fun ⟨b, _, hsession⟩ => ⟨b, hsession⟩

/-- What the bus has taken in a session are the first of the messages that were written in it, and
possibly the last word. -/
theorem Session.delivered_eq {id : ConnId} {steps : List Moment}
    (h : Session settings id steps a) :
    ∃ messages farewell, delivered (posted steps) = messages.map Message.encode ++ farewell ∧
      messages <+: writtenIn steps ∧ (farewell = [] ∨ farewell = [Message.byeText]) := by
  have hfirst : ∃ texts farewell, delivered (posted steps) = texts ++ farewell ∧
      texts <+: queuedIn steps ∧ (farewell = [] ∨ farewell = [Message.byeText]) := by
    cases hl : a.live with
    | none => exact (h.delivery.finished hl).delivered_eq
    | some l =>
      have hqueued := (h.delivery.live (by simp [hl])).1
      exact ⟨_, [], (List.append_nil _).symm, ⟨_, hqueued⟩, Or.inl rfl⟩
  obtain ⟨texts, farewell, hdelivered, htexts, hfarewell⟩ := hfirst
  rw [queuedIn_eq_map] at htexts
  refine ⟨(writtenIn steps).take texts.length, farewell, ?_, List.take_prefix _ _, hfarewell⟩
  rw [List.map_take, ← List.prefix_iff_eq_take.mp htexts]
  exact hdelivered

end Agent

namespace World

variable {settings : Settings} {scripts : List Script} {bus : BusScript}
  {moves : List (World × Move)} {past : List Agent.Moment} {undone : List Effect} {w : World}

/-- Whether a call that applies a description of this side has begun on the link of a connection. -/
def hasBegunLocal (w : World) (id : ConnId) : Bool :=
  (w.link? id).any fun l => l.ran.any fun operation => operation.setLocal?.isSome

/-- Whether a move is one that a link can be relied upon to make: it reports a candidate only after
a call that applies a description of this side has begun on it. -/
def isCandid (w : World) : Move → Bool
  | .post (.link id (.candidate _)) => w.hasBegunLocal id
  | _ => true

/-- What has begun on a link was handed to it. -/
theorem Sound.submitted_of_begun {id : ConnId} (h : Sound settings past undone w)
    (hbegun : w.hasBegunLocal id = true) : ∃ d, .setLocal d ∈ Agent.submitted id w.effects := by
  obtain ⟨l, hl, hran⟩ := (Option.any_eq_true _ _).mp hbegun
  obtain ⟨operation, hmem, hlocal⟩ := List.any_eq_true.mp hran
  obtain ⟨hlink, rfl⟩ := link?_eq_some hl
  cases operation with
  | setLocal d =>
    exact ⟨d, (h.links l hlink).ordered.subset (List.mem_append_left _ hmem)⟩
  | _ => simp [Operation.setLocal?] at hlocal

/-- Candidates of this side wait in the queue only where a description has been handed over, and
descriptions are queued for the peer first. -/
structure Primed (past : List Agent.Moment) (w : World) : Prop where
  queue : ∀ id c, Event.link id (.candidate c) ∈ w.queue →
    ∃ d, .setLocal d ∈ Agent.submitted id w.effects
  led : ∀ id, Led (Agent.writtenIn (Agent.during id past))

/-- In every such course descriptions come before the candidates of this side. -/
theorem Course.primed (h : Course settings scripts bus moves past undone w)
    (hcandid : ∀ p ∈ moves, p.1.isCandid p.2 = true) : Primed past w := by
  induction h with
  | start => exact ⟨by simp, fun _ => Or.inl rfl⟩
  | @move moves past undone w w' m h hm hw ih =>
    obtain ⟨hmoves, hlast⟩ := List.forall_mem_append.mp hcandid
    have hprimed := ih hmoves
    refine ⟨fun id c hevent => ?_, hprimed.led⟩
    rw [(perform_aside hm hw).effects]
    cases perform_queues hm hw with
    | drops _ hqueue => simp [hqueue] at hevent
    | appends hqueue =>
      rw [hqueue] at hevent
      rcases List.mem_append.mp hevent with hold | hnew
      · exact hprimed.queue id c hold
      · rcases (mem_incoming hw hnew).2 with ⟨rfl, -⟩ | ⟨l, -, ⟨_, hother⟩ | ⟨_, hother⟩⟩
        · exact h.run.sound.submitted_of_begun (hlast (w, _) (List.mem_singleton_self _))
        · simp at hother
        · simp at hother
  | @take moves past w event rest r h hqueue ih =>
    have hprimed := ih hcandid
    have hs := h.run.sound
    have heffects : w.effects = Agent.effectsOf past := by simpa using hs.effects
    refine ⟨fun id c hevent => hprimed.queue id c ?_, ?_⟩
    · rw [hqueue]
      exact List.mem_cons_of_mem _ hevent
    · rw [hs.settings_eq]
      refine Agent.Ran.led hs.agent hprimed.led fun id c hevent => ?_
      rw [← heffects]
      exact hprimed.queue id c (by rw [hqueue, hevent]; exact List.mem_cons_self)
  | @act moves past undone w effect h ih =>
    have hprimed := ih hcandid
    obtain ⟨-, -, hqueue, heffects⟩ := apply_frame (w := w) effect
    refine ⟨fun id c hevent => ?_, hprimed.led⟩
    rw [hqueue] at hevent
    obtain ⟨d, hd⟩ := hprimed.queue id c hevent
    rw [heffects, Agent.submitted_append]
    exact ⟨d, List.mem_append_left _ hd⟩

/-- Every message of a session that is handed to the bus is for the same peer, and between sessions
there is none. If links report candidates only after a call that applies a description of this side
has begun on them, then the messages of a session that the bus takes are the one description of the
session and after it candidates, or none yet. Only the last word may follow. -/
theorem run_ownCandidates (h : Course settings scripts bus moves past undone w)
    (hcandid : ∀ p ∈ moves, p.1.isCandid p.2 = true) :
    (∀ m ∈ past, m.before.live = none → Agent.attempts m.effects = []) ∧
    ∀ id, (∃ peer, ∀ m ∈ Agent.during id past, ∀ s ∈ Agent.attempts m.effects, s.peer = peer) ∧
      ∃ messages farewell,
        Agent.delivered (Agent.posted (Agent.during id past)) =
          messages.map Message.encode ++ farewell ∧
        Led messages ∧ (farewell = [] ∨ farewell = [Message.byeText]) := by
  have hled := (h.primed hcandid).led
  obtain ⟨script, rfl, hagent⟩ := h.run.sound.agent
  refine ⟨fun m hm => ?_, fun id => ?_⟩
  · obtain ⟨a, event, r, ha, rfl⟩ := Agent.exists_moment script m hm
    exact (Agent.moment_posts ha event r).1
  · rcases (Agent.run_sorted settings script).session id with hnone | ⟨b, hsession⟩
    · rw [hnone]
      exact ⟨⟨"", by simp⟩, [], [], rfl, Or.inl rfl, Or.inl rfl⟩
    · obtain ⟨peer, hpeer, -⟩ := hsession.delivery.peer
      obtain ⟨messages, farewell, hdelivered, hfirst, hfarewell⟩ := hsession.delivered_eq
      exact ⟨⟨peer, fun m hm => (hpeer m hm).2⟩, messages, farewell, hdelivered,
        (hled id).mono hfirst, hfarewell⟩

/-- A call whose offer is overtaken by one of the peer. The answer cannot be sent at first, and a
candidate of this side comes meanwhile. -/
def overtakenCall : List Move :=
  [.post (.command (.connect "bob")),
    .post (.bus (.message "bob" "\x7b\"type\":\"offer\",\"sdp\":\"v=0\"\x7d")),
    .deliver, .deliver, .link 1 .beginOperation, .link 1 .endOperation, .deliver,
    .link 1 .beginOperation, .link 1 .endOperation, .deliver,
    .link 1 .beginOperation, .link 1 .endOperation, .failBus { sends := 1 }, .deliver,
    .link 1 .beginOperation, .post (.link 1 (.candidate ⟨"typ host", none, none⟩)), .deliver]

/-- The answer is sent before the candidate. -/
theorem ownCandidates_overtakenCall :
    let start : World := { settings := Settings.default }
    ∃ w past, start.performAll overtakenCall = some w ∧
      (∀ p ∈ start.trail overtakenCall, p.1.isCandid p.2 = true) ∧
      Agent.delivered (Agent.attempts w.effects) =
        [(Message.description ⟨.answer, "answer-sdp"⟩).encode,
          (Message.candidate ⟨"typ host", none, none⟩).encode] ∧
      ∃ messages farewell, Agent.delivered (Agent.posted (Agent.during 1 past)) =
          messages.map Message.encode ++ farewell ∧ Led messages := by
  intro start
  have hcandid : ∀ p ∈ start.trail overtakenCall, p.1.isCandid p.2 = true := by
    decide +kernel
  have hsent : (start.performAll overtakenCall).map
      (fun w => Agent.delivered (Agent.attempts w.effects)) =
        some [(Message.description ⟨.answer, "answer-sdp"⟩).encode,
          (Message.candidate ⟨"typ host", none, none⟩).encode] := by
    decide +kernel
  obtain ⟨w, hw, hdelivered⟩ := Option.map_eq_some_iff.mp hsent
  obtain ⟨past, hcourse⟩ := Course.performAll .start hw
  obtain ⟨messages, farewell, htaken, hled, -⟩ := ((run_ownCandidates hcourse hcandid).2 1).2
  exact ⟨w, past, hw, hcandid, hdelivered, messages, farewell, htaken, hled⟩

end World

end PeerCall
