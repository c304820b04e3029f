import PeerCall.Proofs.Agent.Posting

/-!
# The messages of a session

All messages of a session but the last word go through the outbox: they are sent in the order in
which they were queued, each once, and only to the peer of the session. The word that ends a call
goes around the outbox, and is tried once when the user hangs up.
-/

namespace PeerCall

namespace Agent

variable {settings : Settings} {a : Agent} {r : Replies} {event : Event} {peer : String}

/-! ## Sessions -/

/-- All that was handed to the bus in some steps. -/
def posted (steps : List Moment) : List Attempt := steps.flatMap fun m => Agent.attempts m.effects

/-- All that was added to the outbox in some steps. -/
def queuedIn (steps : List Moment) : List String := steps.flatMap fun m => m.before.queued m.event

/-- How the messages of a session have gone out by its end. -/
structure Finished (steps : List Moment) : Prop where
  /-- The messages that the bus has taken are the first of those that were queued, each once and
  in order. Only the last word may come after them. -/
  delivered_eq : ∃ texts farewell, delivered (posted steps) = texts ++ farewell ∧
    texts <+: queuedIn steps ∧ (farewell = [] ∨ farewell = [Message.byeText])
  /-- The last word was tried once, as the last message, if the user has hung up, and never if the
  session has ended for another reason. -/
  goodbye : ∃ earlier last, steps = earlier ++ [last] ∧ last.after.live = none ∧
    if last.event.hangsUp then
      ∃ others s, posted steps = others ++ [s] ∧ s.text = Message.byeText ∧
        ∀ s ∈ others, s.text ≠ Message.byeText
    else ∀ s ∈ posted steps, s.text ≠ Message.byeText

/-- How the messages of a session go out. -/
structure Delivery (steps : List Moment) (a : Agent) : Prop where
  /-- All messages go to the peer of the session, who stays the same. -/
  peer : ∃ peer, (∀ m ∈ steps, m.before.call.peer = some peer ∧
      ∀ s ∈ Agent.attempts m.effects, s.peer = peer) ∧
    (a.live.isSome → a.call.peer = some peer)
  /-- What was queued has been taken by the bus or still waits, each once and in order. -/
  live : a.live.isSome → delivered (posted steps) ++ a.call.outbox = queuedIn steps ∧
    ∀ s ∈ posted steps, s.text ≠ Message.byeText
  finished : a.live = none → Finished steps

/-- No message of the outbox is the last word. -/
theorem queued_ne_byeText : ∀ text ∈ a.queued event, text ≠ Message.byeText := by
  intro text htext
  have hencode {message : Message} (h : message ≠ .bye) (hmem : text ∈ [message.encode]) :
      text ≠ Message.byeText := by
    rw [List.mem_singleton.mp hmem]
    exact Message.encode_ne_byeText h
  unfold queued at htext
  split at htext
  · split at htext
    · exact hencode (by simp) htext
    · simp at htext
  · split at htext
    · exact hencode (by simp) htext
    · simp at htext
  · simp at htext

/-- No message that is queued is the last word. -/
theorem queuedIn_ne_byeText {steps : List Moment} :
    ∀ text ∈ queuedIn steps, text ≠ Message.byeText := by
  intro text htext
  obtain ⟨m, -, hm⟩ := List.mem_flatMap.mp htext
  exact queued_ne_byeText text hm

/-- Messages are delivered in the order of the attempts. -/
theorem delivered_append (first second : List Attempt) :
    delivered (first ++ second) = delivered first ++ delivered second := by
  simp [delivered]

/-- A step of a session that goes on keeps the messages in order. -/
theorem Delivery.goesOn {steps : List Moment} {m : Moment} {l l' : Live}
    (h : Delivery steps m.before) (hl : m.before.live = some l) (hlive : m.after.live = some l')
    (hpeer : m.before.call.peer = some peer) (hsame : m.after.call.peer = m.before.call.peer)
    (hsends : Sends peer (m.before.call.outbox ++ m.before.queued m.event)
      (Agent.attempts m.effects) m.after.call.outbox) :
    Delivery (steps ++ [m]) m.after := by
  obtain ⟨other, hsteps, hother⟩ := h.peer
  obtain ⟨hdelivered, hbye⟩ := h.live (by simp [hl])
  obtain rfl : peer = other := Option.some.inj (hpeer.symm.trans (hother (by simp [hl])))
  refine ⟨⟨peer, ?_, fun _ => hsame.trans hpeer⟩, fun _ => ⟨?_, ?_⟩, by simp [hlive]⟩
  · simp only [List.forall_mem_append, List.forall_mem_singleton]
    exact ⟨hsteps, hpeer, hsends.peer_eq⟩
  · calc delivered (posted (steps ++ [m])) ++ m.after.call.outbox
        = delivered (posted steps) ++
            (delivered (Agent.attempts m.effects) ++ m.after.call.outbox) := by
          simp [posted, delivered_append]
      _ = delivered (posted steps) ++ m.before.call.outbox ++ m.before.queued m.event := by
          rw [hsends.delivered_append, List.append_assoc]
      _ = queuedIn (steps ++ [m]) := by simp [hdelivered, queuedIn]
  · have hqueue : ∀ text ∈ m.before.call.outbox ++ m.before.queued m.event,
        text ≠ Message.byeText := by
      intro text htext
      rcases List.mem_append.mp htext with h | h
      · exact queuedIn_ne_byeText text (hdelivered ▸ List.mem_append_right _ h)
      · exact queued_ne_byeText text h
    simp only [posted, List.flatMap_append, List.flatMap_singleton, List.forall_mem_append]
    exact ⟨hbye, fun s hs => hqueue s.text (hsends.text_mem s hs)⟩

/-- A step that ends a session may say the last word, and nothing else. -/
theorem Delivery.ends {steps : List Moment} {m : Moment} {l : Live}
    (h : Delivery steps m.before) (hl : m.before.live = some l) (hlive : m.after.live = none)
    (hpeer : m.before.call.peer = some peer)
    (hattempts : if m.event.hangsUp then
        ∃ error, Agent.attempts m.effects = [⟨peer, Message.byeText, error⟩]
      else Agent.attempts m.effects = []) :
    Delivery (steps ++ [m]) m.after := by
  obtain ⟨other, hsteps, hother⟩ := h.peer
  obtain ⟨hdelivered, hbye⟩ := h.live (by simp [hl])
  obtain rfl : peer = other := Option.some.inj (hpeer.symm.trans (hother (by simp [hl])))
  have hposted : posted (steps ++ [m]) = posted steps ++ Agent.attempts m.effects := by
    simp [posted]
  have hprefix : delivered (posted steps) <+: queuedIn (steps ++ [m]) := by
    have hqueued : queuedIn (steps ++ [m]) = queuedIn steps ++ m.before.queued m.event := by
      simp [queuedIn]
    rw [hqueued, ← hdelivered, List.append_assoc]
    exact List.prefix_append _ _
  refine ⟨⟨peer, ?_, by simp [hlive]⟩, by simp [hlive], fun _ => ?_⟩
  · simp only [List.forall_mem_append, List.forall_mem_singleton]
    refine ⟨hsteps, hpeer, ?_⟩
    split at hattempts
    · obtain ⟨error, hattempts⟩ := hattempts
      simp [hattempts]
    · simp [hattempts]
  · cases hevent : m.event.hangsUp with
    | true =>
      rw [hevent, if_pos rfl] at hattempts
      obtain ⟨error, hattempts⟩ := hattempts
      rw [hattempts] at hposted
      refine ⟨?_, steps, m, rfl, hlive, ?_⟩
      · refine ⟨delivered (posted steps), delivered [⟨peer, Message.byeText, error⟩], ?_,
          hprefix, ?_⟩
        · rw [hposted, delivered_append]
        · cases error <;> simp [delivered]
      · rw [hevent, if_pos rfl]
        exact ⟨posted steps, _, hposted, rfl, hbye⟩
    | false =>
      rw [hevent, if_neg (by simp)] at hattempts
      rw [hattempts, List.append_nil] at hposted
      refine ⟨⟨_, [], by rw [hposted, List.append_nil], hprefix, Or.inl rfl⟩,
        steps, m, rfl, hlive, ?_⟩
      rw [hevent, if_neg (by simp), hposted]
      exact hbye

/-- The messages of a session go out as they should, by induction on its steps. -/
theorem Session.delivery {id : ConnId} {steps : List Moment} (h : Session settings id steps a) :
    Delivery steps a := by
  induction h with
  | @begins a event r ha hl hlive =>
    obtain ⟨-, peer, hpeer⟩ := (step_coherent ha event).call_of_live hlive
    have houtbox : (a.step settings r event).1.call.outbox = [] := by
      cases (step_stride ha event).passage ha with
      | begins _ _ houtbox => exact houtbox
      | rests _ hnone => simp [hlive] at hnone
      | goesOn hsome | ends hsome => simp [hl] at hsome
    refine ⟨⟨peer, by simp, fun _ => hpeer⟩, fun _ => ⟨?_, by simp [posted]⟩, by simp [hlive]⟩
    simp [posted, queuedIn, delivered, houtbox]
  | @goesOn steps a event r hsteps hlive ih =>
    have ha := hsteps.coherent
    have hstride : Stride settings r a event _ := step_stride ha event
    cases hstride.posts ha with
    | silent hl => simp [hl] at hlive
    | goesOn hl hl' hpeer hsends =>
      have hsame : (a.step settings r event).1.call.peer = a.call.peer := by
        cases hstride.passage ha with
        | goesOn _ _ _ hsame => exact hsame
        | rests hnone | begins hnone => simp [hl] at hnone
        | ends _ hnone => simp [hl'] at hnone
      have h : Delivery steps (a.moment settings event r).before := ih
      exact h.goesOn hl hl' hpeer hsame hsends
    | hangsUp hl hnone hpeer hevent hattempts =>
      have h : Delivery steps (a.moment settings event r).before := ih
      refine h.ends hl hnone hpeer ?_
      rw [if_pos (by exact hevent)]
      exact ⟨_, hattempts⟩
    | ends hl hnone hevent hattempts =>
      obtain ⟨-, peer, hpeer⟩ := ha.call_of_live hl
      have h : Delivery steps (a.moment settings event r).before := ih
      refine h.ends hl hnone hpeer ?_
      rw [if_neg (by simp [moment, hevent])]
      exact hattempts

/-! ## Runs -/

/-- Every step sends only during a call, tries nothing after a message that was refused, and
leaves nothing if it is one that sends and the bus takes all messages. -/
theorem moment_posts (ha : a.Coherent) (event : Event) (r : Replies) :
    (a.live = none → Agent.attempts (a.step settings r event).2 = []) ∧
      (∀ s ∈ (Agent.attempts (a.step settings r event).2).dropLast, s.error = none) ∧
      (∀ l, a.live = some l → a.Flushes event →
        (∀ s ∈ Agent.attempts (a.step settings r event).2, s.error = none) →
          (a.step settings r event).1.call.outbox = []) := by
  have hstride : Stride settings r a event _ := step_stride ha event
  refine ⟨fun hnone => ?_, ?_, fun l hl => hstride.outbox_eq_nil ha hl⟩
  · cases hstride.posts ha with
    | silent _ hattempts => exact hattempts
    | goesOn hl | hangsUp hl | ends hl => simp [hl] at hnone
  · cases hstride.posts ha with
    | goesOn _ _ _ hsends => exact hsends.error_eq_none
    | silent _ hattempts | hangsUp _ _ _ _ hattempts | ends _ _ _ hattempts => simp [hattempts]

/-- In every run the messages of each connection go out in order, each at most once, and only to
the peer of its session. -/
theorem run_delivery (settings : Settings) (script : List (Event × Replies)) :
    let past := history settings script {}
    let a := (run settings script {}).1
    (∀ l, a.live = some l →
      delivered (posted (during l.id past)) ++ a.call.outbox = queuedIn (during l.id past) ∧
        ∀ s ∈ posted (during l.id past), s.text ≠ Message.byeText) ∧
    (∀ id, a.live.map (·.id) ≠ some id → during id past = [] ∨ Finished (during id past)) ∧
    (∀ id, ∃ peer, (∀ m ∈ during id past, m.before.call.peer = some peer ∧
        ∀ s ∈ Agent.attempts m.effects, s.peer = peer) ∧
      (a.live.map (·.id) = some id → a.call.peer = some peer)) ∧
    ∀ m ∈ past, (m.before.live = none → Agent.attempts m.effects = []) ∧
      (∀ s ∈ (Agent.attempts m.effects).dropLast, s.error = none) ∧
      ∀ l, m.before.live = some l → m.before.Flushes m.event →
        (∀ s ∈ Agent.attempts m.effects, s.error = none) → m.after.call.outbox = [] := by
  intro past a
  have hsorted : Sorted settings past a := run_sorted settings script
  refine ⟨fun l hl => ?_, fun id hid => ?_, fun id => ?_, fun m hm => ?_⟩
  · exact (hsorted.live l hl).delivery.live (by simp [hl])
  · rcases hsorted.ended id hid with hnone | ⟨b, hb, hsession⟩
    · exact Or.inl hnone
    · exact Or.inr (hsession.delivery.finished hb)
  · by_cases hid : a.live.map (·.id) = some id
    · obtain ⟨l, hl, rfl⟩ := Option.map_eq_some_iff.mp hid
      obtain ⟨peer, hsteps, hpeer⟩ := (hsorted.live l hl).delivery.peer
      exact ⟨peer, hsteps, fun _ => hpeer (by simp [hl])⟩
    · rcases hsorted.ended id hid with hnone | ⟨b, -, hsession⟩
      · exact ⟨"", by simp [hnone], fun h => absurd h hid⟩
      · obtain ⟨peer, hsteps, -⟩ := hsession.delivery.peer
        exact ⟨peer, hsteps, fun h => absurd h hid⟩
  · obtain ⟨b, event, r, hb, rfl⟩ := exists_moment script m hm
    exact moment_posts hb event r

end Agent

end PeerCall
