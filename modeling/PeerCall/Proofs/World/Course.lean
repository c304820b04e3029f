import PeerCall.Proofs.World.Run

/-!
# The course of a run

A run is told again with the moves that were made, each with the whole as it was before. Whatever
depends on the order of moves, such as the events that they add to the queue, can then be spoken of.
-/

namespace PeerCall

/-- A link posts what came of its operations and the records of its polls, and nothing else. -/
theorem Link.perform_event {l l' : Link} {now : Nat} {isHeard : Bool} {move : Link.Move}
    {output : Link.Output} {event : Event}
    (h : l.perform now isHeard move = some (l', output)) (hevent : output.event = some event) :
    isHeard = true ∧ ((∃ outcome, event = .outcome l.id outcome) ∨
      ∃ records, event = .records l.id records) := by
  cases move with
  | endOperation => grind [perform, endOperation]
  | takeResult => grind [perform, takeResult]
  | _ => simp [(of_silent h).2] at hevent

namespace World

/-- What a move adds to the queue. -/
def incoming (w : World) : Move → List Event
  | .post event => [event]
  | .link id move =>
    ((w.link? id).bind fun l => (l.perform w.clock w.isOpen move).bind (·.2.event)).toList
  | _ => []

/-- A run from the beginning, with the moves of the other parts than the agent. The steps of the
agent and what is still to be done for the last of them are those of the run. -/
inductive Course (settings : Settings) (scripts : List Script) (bus : BusScript) :
    List (World × Move) → List Agent.Moment → List Effect → World → Prop
  | start :
      Course settings scripts bus [] [] [] { settings := settings, scripts := scripts, bus := bus }
  /-- A part other than the agent moves. -/
  | move {moves : List (World × Move)} {past : List Agent.Moment} {undone : List Effect}
      {w w' : World} {m : Move} (h : Course settings scripts bus moves past undone w)
      (hm : m ≠ .deliver) (hw : w.perform m = some w') :
      Course settings scripts bus (moves ++ [(w, m)]) past undone w'
  /-- The agent takes an event. -/
  | take {moves : List (World × Move)} {past : List Agent.Moment} {w : World} {event : Event}
      {rest : List Event} (r : Replies) (h : Course settings scripts bus moves past [] w)
      (hqueue : w.queue = event :: rest) :
      Course settings scripts bus moves (past ++ [w.agent.moment w.settings event r])
        (w.agent.step w.settings r event).2
        { w with agent := (w.agent.step w.settings r event).1, queue := rest }
  /-- The next thing that the agent wants done is done. -/
  | act {moves : List (World × Move)} {past : List Agent.Moment} {undone : List Effect} {w : World}
      {effect : Effect} (h : Course settings scripts bus moves past (effect :: undone) w) :
      Course settings scripts bus moves past undone (w.apply effect)

variable {settings : Settings} {scripts : List Script} {bus : BusScript} {trace : List Happening}
  {moves : List (World × Move)} {past : List Agent.Moment} {undone : List Effect} {w w' : World}

/-- What happens to operations in some moves. -/
def happeningsOf (moves : List (World × Move)) : List Happening :=
  moves.flatMap fun p => p.1.happenings p.2

/-- Every course is that of a run. -/
theorem Course.run (h : Course settings scripts bus moves past undone w) :
    Run settings scripts bus (happeningsOf moves) past undone w := by
  induction h with
  | start => exact .start
  | move _ hm hw ih =>
    simp only [happeningsOf, List.flatMap_append, List.flatMap_singleton]
    exact ih.move hm hw
  | take r _ hqueue ih => exact ih.take r hqueue
  | act _ ih => exact ih.act

/-! ## Sequences of moves -/

/-- The moves of the other parts than the agent in a sequence of moves, each with the whole before
it, as far as they are possible. -/
def trail (w : World) : List Move → List (World × Move)
  | [] => []
  | m :: moves =>
    let later := match w.perform m with
      | some w => w.trail moves
      | none => []
    match m with
    | .deliver => later
    | m => (w, m) :: later

/-- All that is still to be done can be done at once. -/
theorem Course.act_all (h : Course settings scripts bus moves past undone w) :
    Course settings scripts bus moves past [] (undone.foldl apply w) := by
  induction undone generalizing w with
  | nil => exact h
  | cons effect undone ih => exact ih h.act

/-- Every sequence of moves that is carried out goes on with a course. -/
theorem Course.performAll {sequence : List Move}
    (h : Course settings scripts bus moves past [] w) (hw : w.performAll sequence = some w') :
    ∃ past, Course settings scripts bus (moves ++ w.trail sequence) past [] w' := by
  induction sequence generalizing moves past w with
  | nil =>
    obtain rfl := Option.some.inj hw
    exact ⟨past, by rwa [trail, List.append_nil]⟩
  | cons m sequence ih =>
    obtain ⟨v, hv, hrest⟩ := Option.bind_eq_some_iff.mp hw
    by_cases hm : m = .deliver
    · subst hm
      simp only [trail, hv]
      simp only [World.perform, deliver] at hv
      split at hv
      · next event rest hqueue =>
        split at hv
        · obtain rfl := Option.some.inj hv
          exact ih (h.take w.replies hqueue).act_all hrest
        · simp at hv
      · simp at hv
    · have htrail : w.trail (m :: sequence) = (w, m) :: v.trail sequence := by
        cases m <;> simp_all [trail]
      rw [htrail, List.append_cons]
      exact ih (h.move hm hv) hrest

/-! ## The queue -/

/-- What a move of another part than the agent does to the queue: it adds events at the end, or
gives the agent up with all that waits. -/
inductive Queues (w w' : World) (events : List Event) : Prop
  | appends (hqueue : w'.queue = w.queue ++ events) (hopen : w'.isOpen = w.isOpen)
  | drops (hnone : events = []) (hqueue : w'.queue = []) (hopen : w'.isOpen = false)

/-- A move of a link adds the event that it posts. -/
theorem incoming_link {l l' : Link} {move : Link.Move} {output : Link.Output}
    (hl : w.link? l.id = some l) (hmove : l.perform w.clock w.isOpen move = some (l', output)) :
    w.incoming (.link l.id move) = output.event.toList := by
  simp [incoming, hl, hmove]

/-- Every move of another part than the agent does one of these. -/
theorem perform_queues {m : Move} (hm : m ≠ .deliver) (hw : w.perform m = some w') :
    Queues w w' (w.incoming m) := by
  cases perform_makes hm hw with
  | post => exact .appends rfl rfl
  | link hl hmove => exact .appends (by rw [incoming_link hl hmove]) rfl
  | resume | advance | failBus | dropListener => exact .appends (List.append_nil _).symm rfl
  | dropAgent => exact .drops rfl rfl rfl

/-- What a move adds to the queue comes from outside or from a link, and only while events can be
posted. -/
theorem mem_incoming {m : Move} {event : Event} (hw : w.perform m = some w')
    (hevent : event ∈ w.incoming m) : w.isOpen = true ∧
      ((m = .post event ∧ event.isExternal = true) ∨ ∃ l ∈ w.links,
        (∃ outcome, event = .outcome l.id outcome) ∨ ∃ records, event = .records l.id records) := by
  have hm : m ≠ .deliver := by
    rintro rfl
    simp [incoming] at hevent
  cases perform_makes hm hw with
  | post hopen hexternal =>
    obtain rfl := List.mem_singleton.mp hevent
    exact ⟨hopen, Or.inl ⟨rfl, hexternal⟩⟩
  | @link l _ _ _ hl hmove =>
    rw [incoming_link hl hmove] at hevent
    obtain ⟨hopen, hkind⟩ := Link.perform_event hmove (Option.mem_toList.mp hevent)
    exact ⟨hopen, Or.inr ⟨l, (link?_eq_some hl).1, hkind⟩⟩
  | _ => simp [incoming] at hevent

/-- Nothing is added once no event can be posted any more. -/
theorem incoming_eq_nil {m : Move} (hw : w.perform m = some w') (hopen : w.isOpen = false) :
    w.incoming m = [] := by
  refine List.eq_nil_iff_forall_not_mem.mpr fun event hevent => ?_
  have hposted := (mem_incoming hw hevent).1
  simp [hopen] at hposted

/-- What is done for the agent leaves it open for events or not. -/
theorem apply_isOpen (effect : Effect) : (w.apply effect).isOpen = w.isOpen := by
  cases effect with
  | create id error => cases error <;> rfl
  | notify notice => cases hlistener : w.hasListener <;> simp [apply, hlistener]
  | _ => rfl

/-- Nor does anything wait then. -/
theorem Course.queue_eq_nil (h : Course settings scripts bus moves past undone w)
    (hopen : w.isOpen = false) : w.queue = [] := by
  induction h with
  | start => rfl
  | @move _ _ _ w w' m _ hm hw ih =>
    cases perform_queues hm hw with
    | appends hqueue hsame =>
      rw [hsame] at hopen
      rw [hqueue, incoming_eq_nil hw hopen, List.append_nil]
      exact ih hopen
    | drops _ hqueue => exact hqueue
  | take r _ hqueue ih => simp [ih hopen] at hqueue
  | @act _ _ _ w effect _ ih =>
    rw [apply_isOpen] at hopen
    rw [(apply_frame effect).2.2.1]
    exact ih hopen

end World

end PeerCall
