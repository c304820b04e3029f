import PeerCall.Proofs.Agent.Notices
import PeerCall.Proofs.Link.Polling
import PeerCall.Proofs.World.Closing
import PeerCall.Proofs.World.Course

/-!
# The records of a call

The poller of a link posts the records of each result that it takes, and the agent shows them while
the call stands. What has been shown of a session and what waits in the queue is together what was
made of the results, in the order in which they were taken.
-/

namespace PeerCall

open Metrics (digested digested_mono)

namespace Link

variable {l : Link} {move : Move}

/-- Without a poller no result is taken, -/
theorem taken?_of_gone (h : l.poller = none) : l.taken? move = none := by
  cases move <;> simp [taken?, h]

/-- and no poll ends. -/
theorem endedPoll?_of_gone (h : l.poller = none) : l.endedPoll? move = none := by
  cases move <;> simp [endedPoll?, h]

end Link

namespace World

variable {settings : Settings} {scripts : List Script} {bus : BusScript}
  {moves : List (World × Move)} {past : List Agent.Moment} {undone : List Effect} {w w' : World}
  {id : ConnId} {m : Move}

/-- The link of a connection and the move that it makes, if a move is one of it. -/
def moved? (w : World) (id : ConnId) : Move → Option (Link × Link.Move)
  | .link other move => if other = id then (w.link? id).map (·, move) else none
  | _ => none

/-- The results that the poller of a connection takes in some moves, in order. -/
def takenOf (id : ConnId) (moves : List (World × Move)) : List Metrics.PollResult :=
  moves.filterMap fun p => (p.1.moved? id p.2).bind fun x => x.1.taken? x.2

/-- The polls of a connection that end in some moves, in order. -/
def endedOf (id : ConnId) (moves : List (World × Move)) : List (Nat × Answer) :=
  moves.filterMap fun p => (p.1.moved? id p.2).bind fun x => x.1.endedPoll? x.2

/-- The records of a connection that wait in a queue. -/
def waiting (id : ConnId) (queue : List Event) : List Metrics.Record :=
  queue.flatMap (Event.recordsOf id)

/-- Records wait in the order of the queue. -/
theorem waiting_append (first second : List Event) :
    waiting id (first ++ second) = waiting id first ++ waiting id second :=
  List.flatMap_append

/-- Those of the first event are before the others. -/
theorem waiting_cons (event : Event) (rest : List Event) :
    waiting id (event :: rest) = event.recordsOf id ++ waiting id rest :=
  List.flatMap_cons

/-! ## Single moves -/

/-- The result that a move takes comes after those that were taken before. -/
theorem takenOf_concat : takenOf id (moves ++ [(w, m)]) =
    takenOf id moves ++ ((w.moved? id m).bind fun x => x.1.taken? x.2).toList :=
  filterMap_concat _ _ _

/-- So does the poll that it ends. -/
theorem endedOf_concat : endedOf id (moves ++ [(w, m)]) =
    endedOf id moves ++ ((w.moved? id m).bind fun x => x.1.endedPoll? x.2).toList :=
  filterMap_concat _ _ _

/-- A move that is not one of the link of a connection neither takes its results nor ends its
polls. -/
theorem unmoved (hmoved : w.moved? id m = none) :
    takenOf id (moves ++ [(w, m)]) = takenOf id moves ∧
      endedOf id (moves ++ [(w, m)]) = endedOf id moves := by
  simp [takenOf_concat, endedOf_concat, hmoved]

/-- A possible move of the link of a connection. -/
theorem exists_of_moved {l : Link} {move : Link.Move} (hmoved : w.moved? id m = some (l, move))
    (hw : w.perform m = some w') : l ∈ w.links ∧ l.id = id ∧ ∃ l' output,
      l.perform w.clock w.isOpen move = some (l', output) ∧
      w.incoming m = output.event.toList := by
  have hm : m ≠ .deliver := by
    rintro rfl
    simp [moved?] at hmoved
  cases perform_makes hm hw with
  | @link l₀ l' move₀ output hl hmove =>
    by_cases hid : l₀.id = id
    · subst hid
      obtain ⟨rfl, rfl⟩ : l₀ = l ∧ move₀ = move := by simpa [moved?, hl] using hmoved
      exact ⟨(link?_eq_some hl).1, rfl, l', output, hmove, incoming_link hl hmove⟩
    · simp [moved?, hid] at hmoved
  | _ => simp [moved?] at hmoved

/-- No other move brings records of a connection. -/
theorem waiting_incoming_eq_nil (hmoved : w.moved? id m = none) (hm : m ≠ .deliver)
    (hw : w.perform m = some w') : waiting id (w.incoming m) = [] := by
  cases perform_makes hm hw with
  | @post event _ hexternal =>
    cases event <;> simp_all [waiting, incoming, Event.recordsOf, Event.isExternal]
  | @link l _ _ output hl hmove =>
    have hother : l.id ≠ id := by
      rintro rfl
      simp [moved?, hl] at hmoved
    rw [incoming_link hl hmove]
    cases hevent : output.event with
    | none => rfl
    | some event =>
      rcases (Link.perform_event hmove hevent).2 with ⟨outcome, rfl⟩ | ⟨records, rfl⟩ <;>
        simp [waiting, Event.recordsOf, hother]
  | _ => rfl

/-! ## The polls of all links -/

/-- Each link stands as the polls that have ended and the results that were taken leave it. A
connection whose polls have not been started has none of either. -/
structure Sampled (moves : List (World × Move)) (w : World) : Prop where
  links : ∀ l ∈ w.links, Sampling l.poller (takenOf l.id moves) (endedOf l.id moves)
  stopped : ∀ id, Sampling none (takenOf id moves) (endedOf id moves)
  fresh : ∀ id, id ∉ Agent.started w.effects →
    takenOf id moves = [] ∧ endedOf id moves = [] ∧ waiting id w.queue = []

/-- A link has a poller only where polls have been started. -/
def PollersStarted (w : World) : Prop :=
  ∀ l ∈ w.links, l.poller ≠ none → l.id ∈ Agent.started w.effects

/-- What holds of all links still does after one of them has changed so that it holds. -/
theorem forall_updateLink {p : Link → Prop} {f : Link → Link} (h : ∀ l ∈ w.links, p l)
    (hf : ∀ l ∈ w.links, l.id = id → p (f l)) : ∀ l ∈ (w.updateLink id f).links, p l := by
  intro l' hl'
  obtain ⟨l, hl, rfl⟩ := mem_updateLink.mp hl'
  split
  · next hid => exact hf l hl hid
  · exact h l hl

/-- No part other than the agent starts polls. -/
theorem PollersStarted.perform (h : PollersStarted w) (hm : m ≠ .deliver)
    (hw : w.perform m = some w') : PollersStarted w' := by
  have hsame := (perform_aside hm hw).effects
  rw [PollersStarted, hsame]
  cases perform_makes hm hw with
  | post | advance | failBus | dropListener => exact h
  | @link l l' _ _ hl hmove =>
    refine forall_updateLink h fun _ _ _ hpoller => ?_
    obtain ⟨p', hp'⟩ := Option.ne_none_iff_exists'.mp hpoller
    obtain ⟨p, hp, -⟩ := Link.perform_poller hmove hp'
    rw [(Link.perform_shifts hmove).id_eq]
    exact h l (link?_eq_some hl).1 (by simp [hp])
  | @resume l l' hl hresume =>
    refine forall_updateLink h fun _ _ _ hpoller => ?_
    rw [(Link.resume_shifts hresume).id_eq]
    refine h l (link?_eq_some hl).1 ?_
    obtain ⟨ticket, -, rfl⟩ := Option.map_eq_some_iff.mp hresume
    simpa using hpoller
  | dropAgent =>
    refine dropAgent_keeps
      (p := fun v => ∀ l ∈ v.links, l.poller ≠ none → l.id ∈ Agent.started w.effects)
      (fun v id hv => ?_) (fun v id hv => ?_) (fun v hv => hv) h
    · exact forall_updateLink hv fun l hl _ hpoller =>
        hv l hl (by simpa [Link.stopPolls] using hpoller)
    · exact forall_updateLink hv fun l hl _ hpoller => hv l hl hpoller

/-- What the agent does starts polls only where it is meant to. -/
theorem PollersStarted.act {effect : Effect} (h : PollersStarted w) :
    PollersStarted (w.apply effect) := by
  have hmore (l : Link) (hl : l ∈ w.links) (hpoller : l.poller ≠ none) :
      l.id ∈ Agent.started (w.effects ++ [effect]) := by
    rw [Agent.started_append]
    exact List.mem_append_left _ (h l hl hpoller)
  rw [PollersStarted, (apply_frame effect).2.2.2]
  cases effect with
  | create id error =>
    cases error with
    | some error => exact hmore
    | none => exact List.forall_mem_append.mpr ⟨hmore, by simp⟩
  | submit id operation => exact forall_updateLink hmore fun l hl _ hpoller => hmore l hl hpoller
  | startPolls id =>
    refine forall_updateLink hmore fun l _ hid _ => ?_
    rw [Agent.started_append]
    exact List.mem_append_right _ (by simp [Agent.started, Agent.rhythm, Effect.rhythm?,
      Link.startPolls, hid])
  | stopPolls id =>
    exact forall_updateLink hmore fun l hl _ hpoller =>
      hmore l hl (by simpa [Link.stopPolls] using hpoller)
  | close id => exact forall_updateLink hmore fun l hl _ hpoller => hmore l hl hpoller
  | notify notice =>
    have hsame : (w.apply (.notify notice)).links = w.links := by
      cases hlistener : w.hasListener <;> simp [apply, hlistener]
    rw [hsame]
    exact hmore
  | _ => exact hmore

/-- In every run links have pollers only where polls have been started. -/
theorem Run.pollersStarted {trace : List Happening}
    (h : Run settings scripts bus trace past undone w) : PollersStarted w := by
  induction h with
  | start => simp [PollersStarted]
  | move _ hm hw ih => exact ih.perform hm hw
  | take _ _ _ ih => exact ih
  | act _ ih => exact ih.act

/-- A move brings the records of the result that it takes, as long as events can be posted. -/
theorem Sampled.digested_concat (h : Sampled moves w) (hm : m ≠ .deliver)
    (hw : w.perform m = some w') (hopen : w.isOpen = true) (id : ConnId) :
    digested (takenOf id (moves ++ [(w, m)])) =
      digested (takenOf id moves) ++ waiting id (w.incoming m) := by
  cases hmoved : w.moved? id m with
  | none => rw [(unmoved hmoved).1, waiting_incoming_eq_nil hmoved hm hw, List.append_nil]
  | some x =>
    obtain ⟨hl, rfl, l', output, hperform, hincoming⟩ := exists_of_moved hmoved hw
    rw [hopen] at hperform
    rw [takenOf_concat, hmoved, hincoming]
    exact Link.perform_records (h.links x.1 hl) hperform

/-- The polls of each link go on with every move. -/
theorem Sampled.links_move (h : Sampled moves w) (hm : m ≠ .deliver)
    (hw : w.perform m = some w') : ∀ l ∈ w'.links,
      Sampling l.poller (takenOf l.id (moves ++ [(w, m)])) (endedOf l.id (moves ++ [(w, m)])) := by
  have hrest {l : Link} (hl : l ∈ w.links) (hmoved : w.moved? l.id m = none) :
      Sampling l.poller (takenOf l.id (moves ++ [(w, m)]))
        (endedOf l.id (moves ++ [(w, m)])) := by
    rw [(unmoved hmoved).1, (unmoved hmoved).2]
    exact h.links l hl
  cases perform_makes hm hw with
  | post | advance | failBus | dropListener => exact fun l hl => hrest hl rfl
  | @link l l' move _ hl hmove =>
    intro l'' hl''
    obtain ⟨l₀, hl₀, rfl⟩ := mem_updateLink.mp hl''
    split
    · have hmoved : w.moved? l.id (.link l.id move) = some (l, move) := by simp [moved?, hl]
      rw [(Link.perform_shifts hmove).id_eq, takenOf_concat, endedOf_concat, hmoved]
      exact Link.perform_sampling (h.links l (link?_eq_some hl).1) hmove
    · next hother => exact hrest hl₀ (by simp [moved?, Ne.symm hother])
  | resume hl hresume =>
    refine forall_updateLink (fun l hl => hrest hl rfl) fun _ _ _ => ?_
    rw [(Link.resume_shifts hresume).id_eq]
    exact Link.resume_sampling (hrest (link?_eq_some hl).1 rfl) hresume
  | dropAgent =>
    refine dropAgent_keeps
      (p := fun v => ∀ l ∈ v.links, Sampling l.poller
        (takenOf l.id (moves ++ [(w, .dropAgent)])) (endedOf l.id (moves ++ [(w, .dropAgent)])))
      (fun v id hv => ?_) (fun v id hv => ?_) (fun v hv => hv) fun l hl => hrest hl rfl
    · exact forall_updateLink hv fun l hl _ => Link.stopPolls_sampling (hv l hl)
    · exact forall_updateLink hv fun l hl _ => hv l hl

/-- A connection whose polls have not been started has no part in a move. -/
theorem Sampled.fresh_move (h : Sampled moves w) (hstarted : PollersStarted w) (hm : m ≠ .deliver)
    (hw : w.perform m = some w') (hid : id ∉ Agent.started w.effects) :
    takenOf id (moves ++ [(w, m)]) = [] ∧ endedOf id (moves ++ [(w, m)]) = [] ∧
      waiting id w'.queue = [] := by
  obtain ⟨htaken, hended, hwaiting⟩ := h.fresh id hid
  have hsame : takenOf id (moves ++ [(w, m)]) = takenOf id moves ∧
      endedOf id (moves ++ [(w, m)]) = endedOf id moves := by
    cases hmoved : w.moved? id m with
    | none => exact unmoved hmoved
    | some x =>
      obtain ⟨hl, rfl, -⟩ := exists_of_moved hmoved hw
      have hpoller : x.1.poller = none := by
        by_contra hsome
        exact hid (hstarted x.1 hl hsome)
      simp [takenOf_concat, endedOf_concat, hmoved, Link.taken?_of_gone hpoller,
        Link.endedPoll?_of_gone hpoller]
  refine ⟨hsame.1.trans htaken, hsame.2.trans hended, ?_⟩
  cases perform_queues hm hw with
  | drops _ hqueue => simp [waiting, hqueue]
  | appends hqueue =>
    rw [hqueue, waiting_append, hwaiting, List.nil_append]
    cases hopen : w.isOpen with
    | true =>
      have hmore := h.digested_concat hm hw hopen id
      rw [hsame.1] at hmore
      exact List.self_eq_append_right.mp hmore
    | false =>
      rw [incoming_eq_nil hw hopen]
      rfl

/-- Each link still stands so after a move. -/
theorem Sampled.move (h : Sampled moves w) (hstarted : PollersStarted w) (hm : m ≠ .deliver)
    (hw : w.perform m = some w') : Sampled (moves ++ [(w, m)]) w' := by
  refine ⟨h.links_move hm hw, fun id => ?_, fun id hid => ?_⟩
  · cases hmoved : w.moved? id m with
    | none =>
      rw [(unmoved hmoved).1, (unmoved hmoved).2]
      exact h.stopped id
    | some x =>
      obtain ⟨hl, rfl, l', output, hmove, -⟩ := exists_of_moved hmoved hw
      rw [takenOf_concat, endedOf_concat, hmoved]
      exact (Link.perform_sampling (h.links x.1 hl) hmove).gone
  · rw [(perform_aside hm hw).effects] at hid
    exact h.fresh_move hstarted hm hw hid

/-- What the agent does starts polls only where none have been started. -/
theorem Sampled.act {effect : Effect} (h : Sampled moves w)
    (hnodup : (Agent.started (w.effects ++ effect :: undone)).Nodup) :
    Sampled moves (w.apply effect) := by
  obtain ⟨-, -, hqueue, heffects⟩ := apply_frame (w := w) effect
  refine ⟨?_, h.stopped, fun id hid => ?_⟩
  · cases effect with
    | create id error =>
      cases error with
      | some error => exact h.links
      | none =>
        refine List.forall_mem_append.mpr ⟨h.links, fun l hl => ?_⟩
        obtain rfl := List.mem_singleton.mp hl
        exact h.stopped id
    | submit id operation => exact forall_updateLink h.links fun l hl _ => h.links l hl
    | startPolls id =>
      have hnot : id ∉ Agent.started w.effects := fun hmem => by
        rw [Agent.started_append] at hnodup
        exact (List.nodup_append.mp hnodup).2.2 id hmem id List.mem_cons_self rfl
      obtain ⟨htaken, hended, -⟩ := h.fresh id hnot
      refine forall_updateLink h.links fun l hl hid => ?_
      change Sampling (some (Poller.start _ _)) (takenOf l.id moves) (endedOf l.id moves)
      rw [hid, htaken, hended]
      exact (Poller.Tracks.start _ _).sampling
    | stopPolls id =>
      exact forall_updateLink h.links fun l hl _ => Link.stopPolls_sampling (h.links l hl)
    | close id => exact forall_updateLink h.links fun l hl _ => h.links l hl
    | notify notice =>
      have hsame : (w.apply (.notify notice)).links = w.links := by
        cases hlistener : w.hasListener <;> simp [apply, hlistener]
      rw [hsame]
      exact h.links
    | _ => exact h.links
  · rw [heffects, Agent.started_append] at hid
    rw [hqueue]
    exact h.fresh id fun hmem => hid (List.mem_append_left _ hmem)

/-- The agent of a run starts the polls of each connection at most once. -/
theorem Run.begun {trace : List Happening} (h : Run settings scripts bus trace past undone w) :
    Agent.Begun (Agent.effectsOf past) w.agent := by
  obtain ⟨script, rfl, hagent⟩ := h.sound.agent
  rw [hagent]
  exact Agent.run_begun script

/-- In every course each link stands as its polls leave it. -/
theorem Course.sampled (h : Course settings scripts bus moves past undone w) :
    Sampled moves w := by
  induction h with
  | start => exact ⟨by simp, fun _ => ⟨List.nil_prefix, List.nodup_nil, by simp⟩,
      fun _ _ => ⟨rfl, rfl, rfl⟩⟩
  | move h hm hw ih => exact ih.move h.run.pollersStarted hm hw
  | take r _ hqueue ih =>
    refine ⟨ih.links, ih.stopped, fun id hid => ?_⟩
    obtain ⟨htaken, hended, hwaiting⟩ := ih.fresh id hid
    rw [hqueue, waiting_cons] at hwaiting
    exact ⟨htaken, hended, (List.append_eq_nil_iff.mp hwaiting).2⟩
  | @act moves past undone w effect h ih =>
    have hnodup : (Agent.started (w.effects ++ effect :: undone)).Nodup := by
      rw [h.run.sound.effects]
      exact h.run.begun.nodup
    exact ih.act hnodup

/-! ## What is shown -/

/-- What has been shown of a session is the beginning of the records of the results that were taken
from its connection. As long as it goes on, the rest of them waits. -/
structure Reported (past : List Agent.Moment) (moves : List (World × Move)) (w : World) :
    Prop where
  ordered : ∀ id, Agent.shown (Agent.during id past) <+: digested (takenOf id moves)
  live : ∀ l, w.agent.live = some l → w.isOpen = true →
    Agent.shown (Agent.during l.id past) ++ waiting l.id w.queue = digested (takenOf l.id moves)

/-- Where an event waits, events can still be posted. -/
theorem Course.isOpen_of_queue {event : Event} {rest : List Event}
    (h : Course settings scripts bus moves past undone w) (hqueue : w.queue = event :: rest) :
    w.isOpen = true := by
  by_contra hclosed
  simp [h.queue_eq_nil (by simpa using hclosed)] at hqueue

/-- The agent shows all records of the live connection that it takes from the queue. Before the
call stands there are none, since no polls have been started. -/
theorem Course.shownBy_step {event : Event} {rest : List Event} {l : Live}
    (h : Course settings scripts bus moves past [] w) (hqueue : w.queue = event :: rest)
    (hl : w.agent.live = some l) (r : Replies) :
    Agent.shownBy (w.agent.step w.settings r event).2 = event.recordsOf l.id := by
  have ha := h.run.sound.coherent
  have heffects : w.effects = Agent.effectsOf past := by simpa using h.run.sound.effects
  rw [Agent.step_shown ha, hl]
  split
  · rfl
  · next hphase =>
    have hnot : l.id ∉ Agent.started w.effects := fun hmem => by
      rw [heffects] at hmem
      exact hphase (ha.of_polled (h.run.begun.polled l hl hmem)).1
    have hnone := (h.sampled.fresh l.id hnot).2.2
    rw [hqueue, waiting_cons] at hnone
    exact (List.append_eq_nil_iff.mp hnone).1.symm

/-- Nothing has happened to the connection that the agent asks for next. -/
theorem Course.next_session (h : Course settings scripts bus moves past [] w) :
    Agent.during (w.agent.issued + 1) past = [] ∧ takenOf (w.agent.issued + 1) moves = [] ∧
      waiting (w.agent.issued + 1) w.queue = [] := by
  have heffects : w.effects = Agent.effectsOf past := by simpa using h.run.sound.effects
  have hnot : w.agent.issued + 1 ∉ Agent.started w.effects := fun hmem => by
    rw [heffects] at hmem
    exact Nat.not_succ_le_self _ (h.run.begun.le_issued _ hmem)
  obtain ⟨htaken, -, hwaiting⟩ := h.sampled.fresh _ hnot
  obtain ⟨script, rfl, hagent⟩ := h.run.sound.agent
  refine ⟨?_, htaken, hwaiting⟩
  rw [hagent]
  exact (Agent.run_sorted settings script).fresh _ (Nat.lt_succ_self _)

/-- A step of the agent shows the records that it takes from the queue. -/
theorem Reported.take {event : Event} {rest : List Event} (h : Reported past moves w)
    (hcourse : Course settings scripts bus moves past [] w) (hqueue : w.queue = event :: rest)
    (r : Replies) :
    Reported (past ++ [w.agent.moment w.settings event r]) moves
      { w with agent := (w.agent.step w.settings r event).1, queue := rest } := by
  have ha := hcourse.run.sound.coherent
  have hshown (l : Live) (hl : w.agent.live = some l) :
      Agent.shown (Agent.during l.id (past ++ [w.agent.moment w.settings event r])) ++
        waiting l.id rest = digested (takenOf l.id moves) := by
    have hbefore := h.live l hl (hcourse.isOpen_of_queue hqueue)
    rw [hqueue, waiting_cons, ← List.append_assoc] at hbefore
    rw [Agent.during_of_live hl, Agent.shown_append, Agent.shown_singleton]
    exact hcourse.shownBy_step hqueue hl r ▸ hbefore
  refine ⟨fun id => ?_, fun l' hl' _ => ?_⟩
  · by_cases hlive : w.agent.live.map (·.id) = some id
    · obtain ⟨l, hl, rfl⟩ := Option.map_eq_some_iff.mp hlive
      exact ⟨_, hshown l hl⟩
    · rw [Agent.during_append, if_neg (by exact hlive), List.append_nil]
      exact h.ordered id
  · have hstride : Agent.Stride w.settings r w.agent event (w.agent.step w.settings r event) :=
      Agent.step_stride ha event
    cases hstride.passage ha with
    | rests _ hlive | ends _ hlive => simp [hlive] at hl'
    | goesOn hl hlive hid =>
      obtain rfl := Option.some.inj (hlive.symm.trans hl')
      rw [hid]
      exact hshown _ hl
    | begins hl hlive =>
      obtain rfl : { id := w.agent.issued + 1 } = l' := Option.some.inj (hlive.symm.trans hl')
      obtain ⟨hduring, htaken, hwaiting⟩ := hcourse.next_session
      rw [hqueue, waiting_cons] at hwaiting
      dsimp only
      rw [Agent.during_append, if_neg (by simp [Agent.moment, hl]), hduring, htaken,
        (List.append_eq_nil_iff.mp hwaiting).2]
      rfl

/-- In every course what has been shown of a connection goes back to what it has taken. -/
theorem Course.reported (h : Course settings scripts bus moves past undone w) :
    Reported past moves w := by
  induction h with
  | start => exact ⟨fun _ => List.nil_prefix, by simp⟩
  | move h hm hw ih =>
    refine ⟨fun id => (ih.ordered id).trans (digested_mono ?_), fun l hl hopen => ?_⟩
    · rw [takenOf_concat]
      exact List.prefix_append _ _
    · rw [(perform_aside hm hw).agent] at hl
      cases perform_queues hm hw with
      | drops _ _ hclosed => simp [hclosed] at hopen
      | appends hqueue hsame =>
        rw [hsame] at hopen
        rw [hqueue, waiting_append, ← List.append_assoc, ih.live l hl hopen]
        exact (h.sampled.digested_concat hm hw hopen l.id).symm
  | take r h hqueue ih => exact ih.take h hqueue r
  | @act _ _ _ w effect _ ih =>
    obtain ⟨-, hagent, hqueue, -⟩ := apply_frame (w := w) effect
    refine ⟨ih.ordered, fun l hl hopen => ?_⟩
    rw [hagent] at hl
    rw [apply_isOpen] at hopen
    rw [hqueue]
    exact ih.live l hl hopen

/-- Records are shown only while a call stands, and they are of its connection. What is shown of a
session is the beginning of what its ledger makes of the results that the poller takes, each once
and in order, and as long as the session goes on nothing is lost. The poller takes the results of
polls in the order in which they end, and each poll ends once. -/
theorem run_records (h : Course settings scripts bus moves past undone w) :
    (∀ m ∈ past, Agent.shownBy m.effects ≠ [] → ∃ l, m.before.live = some l ∧
      m.before.call.phase = .connected ∧ m.event = .records l.id (Agent.shownBy m.effects)) ∧
    (∀ earlier record later,
      Agent.told (Agent.effectsOf past) = earlier ++ .record record :: later →
        phaseAfter .idle earlier = .connected) ∧
    (∀ id, Agent.shown (Agent.during id past) <+: digested (takenOf id moves) ∧
      (w.agent.live.map (·.id) = some id → w.isOpen = true →
        Agent.shown (Agent.during id past) ++ waiting id w.queue = digested (takenOf id moves)) ∧
      takenOf id moves <+: resultsOf (endedOf id moves) ∧
      ((endedOf id moves).map (·.1)).Nodup) ∧
    ∀ l ∈ w.links, ∀ p, l.poller = some p → p.Tracks (takenOf l.id moves) (endedOf l.id moves) := by
  have hsampled := h.sampled
  have hreported := h.reported
  obtain ⟨script, rfl, -⟩ := h.run.sound.agent
  refine ⟨fun m hm hshown => ?_, fun earlier record later hsplit => ?_, fun id => ?_,
    fun l hl => (hsampled.links l hl).tracks⟩
  · obtain ⟨a, event, r, ha, rfl⟩ := Agent.exists_moment script m hm
    exact Agent.moment_shown ha event r hshown
  · exact (Agent.run_leads script).orderly earlier (.record record) later hsplit
  · have hstopped := hsampled.stopped id
    refine ⟨hreported.ordered id, fun hlive hopen => ?_, hstopped.ordered, hstopped.nodup⟩
    obtain ⟨l, hl, rfl⟩ := Option.map_eq_some_iff.mp hlive
    exact hreported.live l hl hopen

/-- A script in which the first poll takes long, the second crashes and the third fails. -/
def disorderlyPolls : Script where
  answers := [(.poll, [{ delayMs := 2500, reports := [⟨"a", "inbound-rtp", []⟩] },
    { ending := .crash }, { ending := .fail .closed },
    { reports := [⟨"b", "inbound-rtp", []⟩] }])]

/-- A call that is polled four times. The first poll is the last that ends. -/
def polledCall : List Move :=
  [.post (.command (.connect "bob")), .deliver, .link 1 .beginOperation, .link 1 .endOperation,
    .deliver, .post (.bus (.message "bob" "\x7b\"type\":\"answer\",\"sdp\":\"v=0\"\x7d")),
    .deliver, .advance 1000, .link 1 .tick, .link 1 (.beginPoll 0),
    .advance 1000, .link 1 .tick, .link 1 (.beginPoll 1), .link 1 (.endPoll 1),
    .advance 1000, .link 1 .tick, .link 1 (.beginPoll 2), .link 1 (.endPoll 2),
    .advance 1000, .link 1 .tick, .link 1 (.beginPoll 3), .link 1 (.endPoll 3),
    .link 1 (.endPoll 0), .link 1 .takeResult, .link 1 .takeResult, .link 1 .takeResult, .deliver]

/-- The record of the fourth poll is shown, and that of the first waits. -/
theorem records_polledCall :
    let start : World := { settings := Settings.default, scripts := [disorderlyPolls] }
    ∃ w past, start.performAll polledCall = some w ∧
      (endedOf 1 (start.trail polledCall)).map (·.1) = [1, 2, 3, 0] ∧
      (digested (takenOf 1 (start.trail polledCall))).map (·.reportId) = ["b", "a"] ∧
      (waiting 1 w.queue).map (·.reportId) = ["a"] ∧
      Agent.shown (Agent.during 1 past) ++ waiting 1 w.queue =
        digested (takenOf 1 (start.trail polledCall)) := by
  intro start
  have hcall : (start.performAll polledCall).map (fun w =>
      (w.agent.live.map (·.id), w.isOpen, (waiting 1 w.queue).map (·.reportId))) =
        some (some 1, true, ["a"]) := by
    decide +kernel
  have hended : (endedOf 1 (start.trail polledCall)).map (·.1) = [1, 2, 3, 0] := by
    decide +kernel
  have htaken : (digested (takenOf 1 (start.trail polledCall))).map (·.reportId) = ["b", "a"] := by
    decide +kernel
  obtain ⟨w, hw, hstate⟩ := Option.map_eq_some_iff.mp hcall
  simp only [Prod.mk.injEq] at hstate
  obtain ⟨hlive, hopen, hwaits⟩ := hstate
  obtain ⟨past, hcourse⟩ := Course.performAll .start hw
  exact ⟨w, past, hw, hended, htaken, hwaits, ((run_records hcourse).2.2.1 1).2.1 hlive hopen⟩

end World

end PeerCall
