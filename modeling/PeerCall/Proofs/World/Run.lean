import PeerCall.Proofs.Agent.Operations
import PeerCall.Proofs.Link.Worker
import PeerCall.World.Basic

/-!
# Runs of the whole

The parts of the whole move in any order. Here a step of the agent does not have to be over before
another part moves: what the agent does is carried out one effect after another, and the links may
move in between. Every sequence of moves that the definitions carry out is such a run.
-/

namespace PeerCall

namespace World

/-- What a move does to an operation of some link. -/
def happenings (w : World) : Move → List Happening
  | .link id move => ((w.link? id).bind (·.happening? move)).toList
  | _ => []

/-- A run from the beginning: what has happened to operations, the steps of the agent, what is
still to be done for the last of them, and the whole as it stands. The answers that the agent gets
in a step are left open, and so is whether it still runs. -/
inductive Run (settings : Settings) (scripts : List Script) (bus : BusScript) :
    List Happening → List Agent.Moment → List Effect → World → Prop
  | start :
      Run settings scripts bus [] [] [] { settings := settings, scripts := scripts, bus := bus }
  /-- A part other than the agent moves. -/
  | move {trace : List Happening} {past : List Agent.Moment} {undone : List Effect} {w w' : World}
      {m : Move} (h : Run settings scripts bus trace past undone w) (hm : m ≠ .deliver)
      (hw : w.perform m = some w') :
      Run settings scripts bus (trace ++ w.happenings m) past undone w'
  /-- The agent takes an event. -/
  | take {trace : List Happening} {past : List Agent.Moment} {w : World} {event : Event}
      {rest : List Event} (r : Replies) (h : Run settings scripts bus trace past [] w)
      (hqueue : w.queue = event :: rest) :
      Run settings scripts bus trace (past ++ [w.agent.moment w.settings event r])
        (w.agent.step w.settings r event).2
        { w with agent := (w.agent.step w.settings r event).1, queue := rest }
  /-- The next thing that the agent wants done is done. -/
  | act {trace : List Happening} {past : List Agent.Moment} {undone : List Effect} {w : World}
      {effect : Effect} (h : Run settings scripts bus trace past (effect :: undone) w) :
      Run settings scripts bus trace past undone (w.apply effect)

variable {settings : Settings} {scripts : List Script} {bus : BusScript} {trace : List Happening}
  {past : List Agent.Moment} {undone : List Effect} {w w' : World}

/-- All that is still to be done can be done at once. -/
theorem Run.act_all (h : Run settings scripts bus trace past undone w) :
    Run settings scripts bus trace past [] (undone.foldl apply w) := by
  induction undone generalizing w with
  | nil => exact h
  | cons effect undone ih => exact ih h.act

/-- Every sequence of moves that is carried out goes on with a run. -/
theorem Run.performAll {moves : List Move} (h : Run settings scripts bus trace past [] w)
    (hw : w.performAll moves = some w') :
    ∃ trace past, Run settings scripts bus trace past [] w' := by
  induction moves generalizing trace past w with
  | nil =>
    obtain rfl := Option.some.inj hw
    exact ⟨_, _, h⟩
  | cons m moves ih =>
    obtain ⟨v, hv, hrest⟩ := Option.bind_eq_some_iff.mp hw
    by_cases hm : m = .deliver
    · subst hm
      simp only [World.perform, deliver] at hv
      split at hv
      · next event rest hqueue =>
        split at hv
        · obtain rfl := Option.some.inj hv
          exact ih (h.take w.replies hqueue).act_all hrest
        · simp at hv
      · simp at hv
    · exact ih (h.move hm hv) hrest

/-! ## Single moves -/

/-- The links after a change of one of them. -/
theorem mem_updateLink {id : ConnId} {f : Link → Link} {l : Link} :
    l ∈ (w.updateLink id f).links ↔ ∃ l₀ ∈ w.links, (if l₀.id = id then f l₀ else l₀) = l := by
  simp [updateLink]

/-- The link of a connection is one of the links, and bears its number. -/
theorem link?_eq_some {id : ConnId} {l : Link} (h : w.link? id = some l) :
    l ∈ w.links ∧ l.id = id :=
  ⟨List.mem_of_find?_eq_some h, by simpa using List.find?_some h⟩

/-- What each move of another part than the agent does to the whole. -/
inductive Makes (w : World) : Move → World → Prop
  | post {event : Event} (hopen : w.isOpen = true) (hexternal : event.isExternal = true) :
      Makes w (.post event) { w with queue := w.queue ++ [event] }
  | link {l l' : Link} {move : Link.Move} {output : Link.Output} (hl : w.link? l.id = some l)
      (hmove : l.perform w.clock w.isOpen move = some (l', output)) :
      Makes w (.link l.id move) { w.updateLink l.id (fun _ => l') with
        queue := w.queue ++ output.event.toList
        log := w.log ++ output.note.toList.map .poll }
  | resume {l l' : Link} (hl : w.link? l.id = some l) (hresume : l.resume? w.clock = some l') :
      Makes w (.resume l.id) (w.updateLink l.id fun _ => l')
  | advance {ms : Nat} : Makes w (.advance ms) { w with clock := w.clock + ms }
  | failBus {script : BusScript} : Makes w (.failBus script) { w with bus := script }
  | dropListener : Makes w .dropListener { w with hasListener := false }
  | dropAgent : Makes w .dropAgent w.dropAgent

/-- Every move but the delivery of an event does one of these. -/
theorem perform_makes {m : Move} (hm : m ≠ .deliver) (hw : w.perform m = some w') :
    Makes w m w' := by
  cases m with
  | deliver => exact absurd rfl hm
  | post event =>
    simp only [perform, post] at hw
    split at hw
    · next hpost =>
      obtain rfl := Option.some.inj hw
      obtain ⟨hopen, hexternal⟩ := Bool.and_eq_true_iff.mp hpost
      exact .post hopen hexternal
    · simp at hw
  | link id move =>
    obtain ⟨l, hl, hrest⟩ := Option.bind_eq_some_iff.mp hw
    obtain ⟨⟨l', output⟩, hmove, hdone⟩ := Option.bind_eq_some_iff.mp hrest
    obtain rfl := Option.some.inj hdone
    obtain rfl := (link?_eq_some hl).2
    exact .link hl hmove
  | resume id =>
    obtain ⟨l, hl, hrest⟩ := Option.bind_eq_some_iff.mp hw
    obtain ⟨l', hresume, hdone⟩ := Option.bind_eq_some_iff.mp hrest
    obtain rfl := Option.some.inj hdone
    obtain rfl := (link?_eq_some hl).2
    exact .resume hl hresume
  | advance | failBus | dropListener | dropAgent =>
    obtain rfl := Option.some.inj hw
    constructor

/-- What a move of another part than the agent leaves alone, and what it can do to the queue and
to the links. -/
structure Aside (w w' : World) (happenings : List Happening) : Prop where
  settings : w'.settings = w.settings
  agent : w'.agent = w.agent
  effects : w'.effects = w.effects
  links : ∀ l' ∈ w'.links, ∃ l ∈ w.links, Link.Shifts l l'
  queue : ∀ id kind, Event.outcome id (.remoteApplied kind) ∈ w'.queue →
    Event.outcome id (.remoteApplied kind) ∈ w.queue ∨
      ∃ d, Happening.ended id (.setRemote d) .done ∈ happenings

/-- A part that changes some links by shifting their operations. -/
theorem shifts_updateLink {id : ConnId} {f : Link → Link}
    (hf : ∀ l ∈ w.links, l.id = id → Link.Shifts l (f l)) :
    ∀ l' ∈ (w.updateLink id f).links, ∃ l ∈ w.links, Link.Shifts l l' := by
  intro l' hl'
  obtain ⟨l, hl, rfl⟩ := mem_updateLink.mp hl'
  refine ⟨l, hl, ?_⟩
  split
  · next hid => exact hf l hl hid
  · exact .refl

/-- Every move but those of the agent leaves it alone. -/
theorem perform_aside {m : Move} (hm : m ≠ .deliver) (hw : w.perform m = some w') :
    Aside w w' (w.happenings m) := by
  have hsame (h : w'.links = w.links) : ∀ l' ∈ w'.links, ∃ l ∈ w.links, Link.Shifts l l' :=
    fun l' hl' => ⟨l', h ▸ hl', .refl⟩
  have hone {l l' : Link} (hl : w.link? l.id = some l) (hshifts : Link.Shifts l l') :
      ∀ l'' ∈ (w.updateLink l.id fun _ => l').links, ∃ l₀ ∈ w.links, Link.Shifts l₀ l'' := by
    intro l'' hl''
    obtain ⟨l₀, hl₀, rfl⟩ := mem_updateLink.mp hl''
    split
    · exact ⟨l, (link?_eq_some hl).1, hshifts⟩
    · exact ⟨l₀, hl₀, .refl⟩
  cases perform_makes hm hw with
  | post _ hexternal =>
    refine ⟨rfl, rfl, rfl, hsame rfl, fun id kind hevent => ?_⟩
    rcases List.mem_append.mp hevent with h | h
    · exact Or.inl h
    · rw [← List.mem_singleton.mp h] at hexternal
      simp [Event.isExternal] at hexternal
  | link hl hmove =>
    refine ⟨rfl, rfl, rfl, hone hl (Link.perform_shifts hmove), fun id kind hevent => ?_⟩
    rcases List.mem_append.mp hevent with h | h
    · exact Or.inl h
    · obtain ⟨rfl, d, hd⟩ := Link.perform_remoteApplied hmove (by simpa using h)
      exact Or.inr ⟨d, by simp [happenings, hl, hd]⟩
  | resume hl hresume =>
    exact ⟨rfl, rfl, rfl, hone hl (Link.resume_shifts hresume), fun _ _ => Or.inl⟩
  | advance | failBus | dropListener => exact ⟨rfl, rfl, rfl, hsame rfl, fun _ _ => Or.inl⟩
  | dropAgent =>
    cases hpolled : w.agent.polled <;> cases hlive : w.agent.live <;>
      simp only [dropAgent, hpolled, hlive, updateLink]
    all_goals
      refine ⟨rfl, rfl, rfl, fun l' hl' => ?_, by simp⟩
      simp only [List.map_map, List.mem_map, Function.comp_apply] at hl'
    · exact ⟨l', hl', .refl⟩
    all_goals
      obtain ⟨l, hl, rfl⟩ := hl'
      refine ⟨l, hl, ?_⟩
      split_ifs <;> exact .keeps rfl rfl rfl

/-! ## What every run keeps -/

/-- The agent of a run has taken its steps as an agent alone would, what was done is what these
steps wanted, and the worker of every link follows what was handed to it. -/
structure Sound (settings : Settings) (past : List Agent.Moment) (undone : List Effect)
    (w : World) : Prop where
  settings_eq : w.settings = settings
  agent : ∃ script, past = Agent.history settings script {} ∧
    w.agent = (Agent.run settings script {}).1
  effects : w.effects ++ undone = Agent.effectsOf past
  links : ∀ l ∈ w.links, l.Follows (Agent.submitted l.id w.effects)
  /-- A link is made before anything is handed to it. -/
  fresh : ∀ first id error second, undone = first ++ .create id error :: second →
    Agent.submitted id (w.effects ++ first) = []

/-- The agent is coherent in every run. -/
theorem Sound.coherent (h : Sound settings past undone w) : w.agent.Coherent := by
  obtain ⟨script, -, hagent⟩ := h.agent
  rw [hagent]
  exact Agent.coherent_run script

/-- A part other than the agent keeps a run sound. -/
theorem Sound.aside {happenings : List Happening} (h : Sound settings past undone w)
    (hw : Aside w w' happenings) : Sound settings past undone w' := by
  refine ⟨hw.settings.trans h.settings_eq, ?_, ?_, fun l' hl' => ?_, ?_⟩
  · rw [hw.agent]
    exact h.agent
  · rw [hw.effects]
    exact h.effects
  · obtain ⟨l, hl, hshifts⟩ := hw.links l' hl'
    rw [hw.effects, hshifts.id_eq]
    exact hshifts.follows (h.links l hl)
  · rw [hw.effects]
    exact h.fresh

/-- A step of the agent keeps a run sound. -/
theorem Sound.take {event : Event} {rest : List Event} (h : Sound settings past [] w)
    (r : Replies) :
    Sound settings (past ++ [w.agent.moment w.settings event r])
      (w.agent.step w.settings r event).2
      { w with agent := (w.agent.step w.settings r event).1, queue := rest } := by
  obtain ⟨script, hpast, hagent⟩ := h.agent
  have heffects : w.effects = Agent.effectsOf past := by simpa using h.effects
  have hstride : Agent.Stride w.settings r w.agent event (w.agent.step w.settings r event) :=
    Agent.step_stride h.coherent event
  refine ⟨h.settings_eq, ⟨script ++ [(event, r)], ?_, ?_⟩, ?_, h.links, ?_⟩
  · rw [Agent.history_append, ← hagent, ← hpast, h.settings_eq]
    rfl
  · rw [Agent.run_append, ← hagent, h.settings_eq]
    rfl
  · rw [Agent.effectsOf_append, ← heffects]
    rfl
  · intro first id error second hsplit
    obtain ⟨rfl, hfirst⟩ := hstride.submitted_before_create hsplit
    have hlater : (Agent.run settings script {}).1.issued < w.agent.issued + 1 := by
      rw [← hagent]
      exact Nat.lt_succ_self _
    rw [heffects, Agent.submitted_append, hfirst, hpast,
      Agent.run_submitted_fresh script _ hlater]
    rfl

/-- What is done for the agent touches neither the agent nor the queue. -/
theorem apply_frame (effect : Effect) :
    (w.apply effect).settings = w.settings ∧ (w.apply effect).agent = w.agent ∧
      (w.apply effect).queue = w.queue ∧ (w.apply effect).effects = w.effects ++ [effect] := by
  cases effect with
  | create id error => cases error <;> exact ⟨rfl, rfl, rfl, rfl⟩
  | notify notice => cases hlistener : w.hasListener <;> simp [apply, hlistener]
  | _ => exact ⟨rfl, rfl, rfl, rfl⟩

/-- The workers follow what is handed to them. -/
theorem follows_apply {effect : Effect}
    (hlinks : ∀ l ∈ w.links, l.Follows (Agent.submitted l.id w.effects))
    (hfresh : ∀ id error, effect = .create id error → Agent.submitted id w.effects = []) :
    ∀ l ∈ (w.apply effect).links, l.Follows (Agent.submitted l.id (w.effects ++ [effect])) := by
  -- An effect that hands over nothing leaves what the workers follow.
  have hshift {links : List Link} (hnone : ∀ id, effect.operationFor? id = none)
      (hlinks' : ∀ l' ∈ links, ∃ l ∈ w.links, Link.Shifts l l') :
      ∀ l ∈ links, l.Follows (Agent.submitted l.id (w.effects ++ [effect])) := by
    intro l' hl'
    obtain ⟨l, hl, hshifts⟩ := hlinks' l' hl'
    rw [Agent.submitted_append, Agent.submitted_cons, hnone, hshifts.id_eq]
    simpa [Agent.submitted] using hshifts.follows (hlinks l hl)
  have hsame : ∀ l' ∈ w.links, ∃ l ∈ w.links, Link.Shifts l l' := fun l hl => ⟨l, hl, .refl⟩
  cases effect with
  | create id error =>
    cases error with
    | some error => exact hshift (fun _ => rfl) hsame
    | none =>
      intro l hl
      rcases List.mem_append.mp hl with h | h
      · exact hshift (fun _ => rfl) hsame l h
      · obtain rfl := List.mem_singleton.mp h
        rw [Agent.submitted_append, hfresh id none rfl]
        exact Link.follows_new
  | submit id operation =>
    intro l' hl'
    obtain ⟨l, hl, rfl⟩ := mem_updateLink.mp hl'
    split
    · next hid =>
      have hmore : Agent.submitted (l.submit operation).id (w.effects ++ [.submit id operation]) =
          Agent.submitted l.id w.effects ++ [operation] := by
        simp [Link.submit, Agent.submitted, Effect.operationFor?, hid]
      rw [hmore]
      exact (hlinks l hl).submit operation
    · next hid =>
      have hother : Agent.submitted l.id (w.effects ++ [.submit id operation]) =
          Agent.submitted l.id w.effects := by
        simp [Agent.submitted, Effect.operationFor?, Ne.symm hid]
      rw [hother]
      exact hlinks l hl
  | startPolls id =>
    exact hshift (fun _ => rfl) (shifts_updateLink fun l _ _ => .keeps rfl rfl rfl)
  | stopPolls id =>
    exact hshift (fun _ => rfl) (shifts_updateLink fun l _ _ => .keeps rfl rfl rfl)
  | close id =>
    exact hshift (fun _ => rfl) (shifts_updateLink fun l _ _ => .stops rfl rfl rfl rfl)
  | notify notice =>
    have hlinks' : (w.apply (.notify notice)).links = w.links := by
      cases hlistener : w.hasListener <;> simp [apply, hlistener]
    rw [hlinks']
    exact hshift (fun _ => rfl) hsame
  | _ => exact hshift (fun _ => rfl) hsame

/-- So does each thing that is done for it. -/
theorem Sound.act {effect : Effect} (h : Sound settings past (effect :: undone) w) :
    Sound settings past undone (w.apply effect) := by
  obtain ⟨hsettings, hagent, -, heffects⟩ := apply_frame (w := w) effect
  have hfresh : ∀ id error, effect = .create id error → Agent.submitted id w.effects = [] := by
    rintro id error rfl
    simpa using h.fresh [] id error undone rfl
  refine ⟨hsettings.trans h.settings_eq, ?_, ?_, ?_, fun first id error second hsplit => ?_⟩
  · rw [hagent]
    exact h.agent
  · rw [heffects, List.append_assoc]
    exact h.effects
  · rw [heffects]
    exact follows_apply h.links hfresh
  · rw [heffects, List.append_assoc]
    exact h.fresh (effect :: first) id error second (by rw [hsplit]; rfl)

/-- Every run is sound. -/
theorem Run.sound (h : Run settings scripts bus trace past undone w) :
    Sound settings past undone w := by
  induction h with
  | start => exact ⟨rfl, ⟨[], rfl, rfl⟩, rfl, by simp, by simp⟩
  | move _ hm hw ih => exact ih.aside (perform_aside hm hw)
  | take r _ _ ih => exact ih.take r
  | act _ ih => exact ih.act

end World

end PeerCall
