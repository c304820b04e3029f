import PeerCall.Proofs.Agent.Residue
import PeerCall.Proofs.World.Closing

/-!
# What a call leaves behind in the whole

The links of earlier connections may still be at work when the next call begins, and what they
post may still be in the queue. Nothing of this can be told from what the whole does later on: it
goes on as it would around a new agent, under other numbers for the connections.
-/

namespace PeerCall

namespace Link

variable {n now : Nat} {l l' : Link} {isHeard : Bool} {move : Move} {output : Output}

/-- The same link under a raised number. -/
def raise (n : Nat) (l : Link) : Link := { l with id := l.id + n }

def Output.raise (n : Nat) (o : Output) : Output := { o with event := o.event.map (·.raise n) }

/-- Nothing that goes on at a link depends on its number. -/
theorem perform_raise :
    (l.raise n).perform now isHeard move =
      (l.perform now isHeard move).map fun p => (p.1.raise n, p.2.raise n) := by
  obtain ⟨id, script, calls, worker, poller, closing⟩ := l
  cases move with
  | beginOperation =>
    obtain ⟨waiting, current, isDone, isClosed⟩ := worker
    cases current <;> cases waiting <;> cases isDone <;> rfl
  | endOperation =>
    simp only [perform, endOperation, raise]
    split
    · split_ifs
      · split <;> rfl
      · split <;> rfl
      · rfl
    · rfl
  | tick =>
    simp only [perform, tick, raise]
    split
    · split_ifs <;> rfl
    · rfl
  | beginPoll i =>
    simp only [perform, beginPoll, raise]
    split
    · split_ifs <;> rfl
    · rfl
  | endPoll i =>
    simp only [perform, endPoll, raise]
    split
    · split
      · split_ifs <;> rfl
      · rfl
    · rfl
  | takeResult =>
    simp only [perform, takeResult, raise]
    split
    · split
      · split_ifs <;> rfl
      · rfl
    · rfl
  | dropPolls =>
    simp only [perform, dropPolls, raise]
    split
    · split_ifs <;> rfl
    · rfl
  | beginClose => cases closing <;> rfl
  | endClose =>
    cases closing with
    | flying flight =>
      simp only [perform, endClose, raise]
      split_ifs <;> rfl
    | _ => rfl

/-- Nor does it matter to a held call that goes on. -/
theorem resume?_raise : (l.raise n).resume? now = (l.resume? now).map (·.raise n) := by
  simp only [resume?, Option.map_map]
  rfl

/-- A link posts events of its own connection. -/
theorem connection_posted {event : Event} (h : l.perform now isHeard move = some (l', output))
    (hevent : output.event = some event) : event.connection? = some l.id := by
  cases move with
  | endOperation =>
    simp only [perform, endOperation] at h
    grind [Event.connection?]
  | takeResult =>
    simp only [perform, takeResult] at h
    grind [Event.connection?]
  | beginOperation | tick | beginPoll | endPoll | dropPolls | beginClose | endClose =>
    obtain ⟨_, -, hsame⟩ := Option.map_eq_some_iff.mp h
    obtain ⟨-, rfl⟩ := Prod.mk.inj hsame
    simp at hevent

/-- What a later link posts reaches the new agent. -/
theorem filterMap_posted (h : l.perform now isHeard move = some (l', output)) (hpos : 0 < l.id) :
    (output.raise n).event.toList.filterMap (Event.lower? n) = output.event.toList := by
  cases hevent : output.event with
  | none => simp [Output.raise, hevent]
  | some event =>
    have hlower := Agent.lower?_raise (n := n) (connection_posted h hevent) hpos
    simp [Output.raise, hevent, hlower]

/-- What an old link posts does not. -/
theorem filterMap_posted_of_le (h : l.perform now isHeard move = some (l', output))
    (hold : l.id ≤ n) : output.event.toList.filterMap (Event.lower? n) = [] := by
  cases hevent : output.event with
  | none => rfl
  | some event => simp [Event.lower?, connection_posted h hevent, Nat.not_lt.mpr hold]

end Link

namespace World

variable {n : Nat} {w w' v base : World} {undone : List Effect}

/-- The same surroundings with a new agent, signed in or not as the old one is: nothing has been
done, and there are no links. -/
def renewed (w : World) : World where
  settings := w.settings
  scripts := w.scripts.drop w.agent.issued
  bus := w.bus
  agent := { isSignedIn := w.agent.isSignedIn }
  queue := w.queue.filterMap (Event.lower? w.agent.issued)
  clock := w.clock
  hasListener := w.hasListener
  isOpen := w.isOpen

/-- What has come of `base` is seen to be the same as `v`, but for the first `n` connections. -/
structure Mirrors (n : Nat) (base w v : World) : Prop where
  settings : v.settings = w.settings
  scripts : v.scripts = w.scripts.drop n
  bus : v.bus = w.bus
  agent : v.agent.raise n = w.agent
  queue : v.queue = w.queue.filterMap (Event.lower? n)
  links : v.links.map (·.raise n) = w.links.filter (n < ·.id)
  clock : v.clock = w.clock
  hasListener : v.hasListener = w.hasListener
  isOpen : v.isOpen = w.isOpen
  effects : base.effects.filter Effect.isSeen ++ (v.effects.filter Effect.isSeen).map (·.raise n) =
    w.effects.filter Effect.isSeen
  notices : base.notices ++ v.notices = w.notices

/-! ## Links -/

/-- A link that is changed keeps its number, so that those of the later connections are as many. -/
theorem filter_updateLink {f : Link → Link} {id : ConnId}
    (hid : ∀ l ∈ w.links, l.id = id → (f l).id = id) :
    (w.updateLink id f).links.filter (n < ·.id) =
      (w.links.filter (n < ·.id)).map fun l => if l.id = id then f l else l := by
  rw [updateLink, List.filter_map]
  congr 1
  refine List.filter_congr fun l hl => ?_
  have hsame : (if l.id = id then f l else l).id = l.id := by
    split
    · next h => exact (hid l hl h).trans h.symm
    · rfl
  simp [hsame]

/-- Nothing that is done to an old link matters. -/
theorem Mirrors.updateOld {f : Link → Link} {id : ConnId} (h : Mirrors n base w v) (hold : id ≤ n)
    (hid : ∀ l ∈ w.links, l.id = id → (f l).id = id) : Mirrors n base (w.updateLink id f) v := by
  refine { h with links := ?_ }
  rw [filter_updateLink hid, h.links]
  refine ((List.map_congr_left fun l hl => ?_).trans (List.map_id _)).symm
  have hlater : n < l.id := by simpa using (List.mem_filter.mp hl).2
  exact if_neg (Nat.ne_of_gt (Nat.lt_of_le_of_lt hold hlater))

/-- What is done to a later link is done to that of the new agent. -/
theorem Mirrors.updateLater {f f' : Link → Link} {id : ConnId} (h : Mirrors n base w v)
    (hid : ∀ l ∈ w.links, l.id = id + n → (f l).id = id + n)
    (hf : ∀ l, f (l.raise n) = (f' l).raise n) :
    Mirrors n base (w.updateLink (id + n) f) (v.updateLink id f') := by
  refine { h with links := ?_ }
  rw [filter_updateLink hid, ← h.links, updateLink, List.map_map, List.map_map]
  refine List.map_congr_left fun l _ => ?_
  have hsame : (l.raise n).id = id + n ↔ l.id = id := Nat.add_right_cancel_iff
  simp only [Function.comp_apply, hsame, apply_ite (Link.raise n), hf]

/-- A later link is found beside the new agent under its lower number. -/
theorem Mirrors.link? (h : Mirrors n base w v) {id : ConnId} (hid : 0 < id) :
    w.link? (id + n) = (v.link? id).map (·.raise n) := by
  have hlater : w.link? (id + n) =
      (w.links.filter (n < ·.id)).find? fun l => decide (l.id = id + n) := by
    rw [World.link?, List.find?_filter]
    congr 1
    funext l
    by_cases h : l.id = id + n <;> simp [h, hid]
  rw [hlater, ← h.links, List.find?_map, World.link?]
  congr 2
  funext l
  simp [Link.raise]

/-! ## What the agent does -/

/-- A later connection has the script that it has beside the new agent. -/
theorem Mirrors.scriptOf (h : Mirrors n base w v) {id : ConnId} (hid : 0 < id) :
    w.scriptOf (id + n) = v.scriptOf id := by
  have hplace : id + n - 1 = n + (id - 1) := by
    rw [Nat.add_comm, Nat.add_sub_assoc hid]
  rw [World.scriptOf, World.scriptOf, h.scripts, List.getElem?_drop, hplace]

/-- A notice is taken if there is someone to take it. -/
theorem apply_notify (notice : Notice) : w.apply (.notify notice) =
    { w with
      effects := w.effects ++ [.notify notice]
      notices := w.notices ++ if w.hasListener then [notice] else [] } := by
  cases h : w.hasListener <;> simp [apply, h]

/-- What the old agent does for a later connection the new one does under the lower number. -/
theorem Mirrors.act {effect : Effect} (h : Mirrors n base w v)
    (hnew : ∀ id error, effect = .create id error → 0 < id) :
    Mirrors n base (w.apply (effect.raise n)) (v.apply effect) := by
  have heffects : base.effects.filter Effect.isSeen ++
      ((v.effects ++ [effect]).filter Effect.isSeen).map (·.raise n) =
        (w.effects ++ [effect.raise n]).filter Effect.isSeen := by
    rw [List.filter_append, List.map_append, ← List.append_assoc, h.effects,
      ← Agent.filter_isSeen_raise, List.filter_append]
    rfl
  have htouch {id : ConnId} {f f' : Link → Link} (hid : ∀ l, (f l).id = l.id)
      (hf : ∀ l, f (l.raise n) = (f' l).raise n) :
      (v.updateLink id f').links.map (·.raise n) =
        (w.updateLink (id + n) f).links.filter (n < ·.id) :=
    (h.updateLater (fun l _ hl => (hid l).trans hl) hf).links
  cases effect with
  | send peer text error =>
    exact { h with bus := congrArg BusScript.afterSend h.bus, effects := heffects }
  | signIn error =>
    exact { h with bus := congrArg BusScript.afterSignIn h.bus, effects := heffects }
  | signOut => exact { h with effects := heffects }
  | create id error =>
    cases error with
    | some error => exact { h with effects := heffects }
    | none =>
      refine { h with links := ?_, effects := heffects }
      have hlater : n < id + n := Nat.lt_add_of_pos_left (hnew id none rfl)
      change (v.links ++ [({ id := id, script := v.scriptOf id } : Link)]).map (·.raise n) =
        (w.links ++ [({ id := id + n, script := w.scriptOf (id + n) } : Link)]).filter (n < ·.id)
      rw [List.map_append, List.filter_append, h.links, h.scriptOf (hnew id none rfl)]
      simp [Link.raise, hlater]
  | submit id operation =>
    exact { h with links := htouch (fun _ => rfl) fun _ => rfl, effects := heffects }
  | startPolls id =>
    refine { h with links := htouch (fun _ => rfl) fun l => ?_, effects := heffects }
    rw [h.settings, h.clock]
    rfl
  | stopPolls id =>
    exact { h with links := htouch (fun _ => rfl) fun _ => rfl, effects := heffects }
  | close id =>
    exact { h with links := htouch (fun _ => rfl) fun _ => rfl, effects := heffects }
  | notify notice =>
    simp only [Effect.raise, apply_notify]
    refine { h with effects := heffects, notices := ?_ }
    rw [h.hasListener, ← h.notices, List.append_assoc]
  | warn warning => exact { h with effects := heffects }

/-- What the old agent does and is not seen has no counterpart. -/
theorem Mirrors.unseen {effect : Effect} (h : Mirrors n base w v)
    (hunseen : effect.isSeen = false) : Mirrors n base (w.apply effect) v := by
  cases effect with
  | warn warning =>
    refine { h with effects := h.effects.trans ?_ }
    simp [apply, Effect.isSeen]
  | _ => simp [Effect.isSeen] at hunseen

/-! ## Moves -/

/-- A later link is there beside the new agent, too. -/
theorem Mirrors.exists_link {l : Link} (h : Mirrors n base w v) (hl : w.link? l.id = some l)
    (hlater : n < l.id) : ∃ l₀, v.link? l₀.id = some l₀ ∧ 0 < l₀.id ∧ l = l₀.raise n := by
  obtain ⟨k, hk⟩ := Nat.exists_eq_add_of_le' (Nat.le_of_lt hlater)
  have hpos : 0 < k := Nat.pos_of_lt_add_left (hk ▸ hlater)
  rw [hk, h.link? hpos] at hl
  obtain ⟨l₀, hl₀, hraised⟩ := Option.map_eq_some_iff.mp hl
  obtain rfl := (link?_eq_some hl₀).2
  exact ⟨l₀, hl₀, hpos, hraised.symm⟩

/-- Events that are posted later reach the new agent unless they are of an old connection. -/
theorem Mirrors.queue_append (h : Mirrors n base w v) (events : List Event) :
    v.queue ++ events.filterMap (Event.lower? n) =
      (w.queue ++ events).filterMap (Event.lower? n) := by
  rw [List.filterMap_append, h.queue]

/-- Nothing has to be done beside the new agent, or a move is made there. -/
def Reflected (n : Nat) (base w' v : World) : Prop :=
  ∃ v', (v' = v ∨ ∃ m, m ≠ .deliver ∧ v.perform m = some v') ∧ Mirrors n base w' v'

/-- An event from outside comes to the new agent, too, unless it is of an old connection. -/
theorem Mirrors.post {event : Event} (h : Mirrors n base w v) (hw : w.post event = some w') :
    Reflected n base w' v := by
  simp only [World.post, Option.ite_none_right_eq_some, Bool.and_eq_true] at hw
  obtain ⟨⟨hopen, hexternal⟩, hw⟩ := hw
  obtain rfl := Option.some.inj hw
  have hqueue := h.queue_append [event]
  cases hlower : event.lower? n with
  | none =>
    rw [List.filterMap_cons_none hlower, List.filterMap_nil, List.append_nil] at hqueue
    exact ⟨v, Or.inl rfl, { h with queue := hqueue }⟩
  | some lowered =>
    rw [List.filterMap_cons_some hlower] at hqueue
    obtain rfl := Agent.raise_of_lower? hlower
    have hpost : (v.isOpen && lowered.isExternal) = true := by
      rw [h.isOpen, hopen, ← hexternal]
      cases lowered <;> rfl
    exact ⟨_, Or.inr ⟨.post lowered, by simp, if_pos hpost⟩, { h with queue := hqueue }⟩

/-- A later link moves beside the new agent, too, and what an old one does is not seen there. -/
theorem Mirrors.moveLink {id : ConnId} {move : Link.Move} (h : Mirrors n base w v)
    (hw : w.moveLink id move = some w') : Reflected n base w' v := by
  obtain ⟨l, hl, hmove⟩ := Option.bind_eq_some_iff.mp hw
  obtain ⟨⟨l', output⟩, hperform, hdone⟩ := Option.bind_eq_some_iff.mp hmove
  obtain rfl := Option.some.inj hdone
  have hsame := (Link.perform_shifts hperform).id_eq
  obtain rfl := (link?_eq_some hl).2
  have hqueue := h.queue_append output.event.toList
  rcases Nat.lt_or_ge n l.id with hlater | hold
  · obtain ⟨l₀, hl₀, hpos, rfl⟩ := h.exists_link hl hlater
    rw [Link.perform_raise, ← h.clock, ← h.isOpen] at hperform
    obtain ⟨⟨l₀', output₀⟩, hperform₀, hraised⟩ := Option.map_eq_some_iff.mp hperform
    obtain ⟨rfl, rfl⟩ := Prod.mk.inj hraised
    rw [Link.filterMap_posted hperform₀ hpos] at hqueue
    have hlater : Mirrors n base (w.updateLink (l₀.id + n) fun _ => l₀'.raise n)
        (v.updateLink l₀.id fun _ => l₀') := h.updateLater (fun _ _ _ => hsame) fun _ => rfl
    have hmove₀ : v.perform (.link l₀.id move) = some { v.updateLink l₀.id (fun _ => l₀') with
        queue := v.queue ++ output₀.event.toList
        log := v.log ++ output₀.note.toList.map .poll } := by
      simp only [perform, World.moveLink, hl₀, Option.bind_eq_bind, Option.bind_some, hperform₀]
      rfl
    exact ⟨_, Or.inr ⟨_, by simp, hmove₀⟩, { hlater with queue := hqueue }⟩
  · rw [Link.filterMap_posted_of_le hperform hold, List.append_nil] at hqueue
    exact ⟨v, Or.inl rfl, { h.updateOld hold fun _ _ _ => hsame with queue := hqueue }⟩

/-- So it is with a held call that goes on. -/
theorem Mirrors.resume {id : ConnId} (h : Mirrors n base w v) (hw : w.resume id = some w') :
    Reflected n base w' v := by
  obtain ⟨l, hl, hmove⟩ := Option.bind_eq_some_iff.mp hw
  obtain ⟨l', hresume, hdone⟩ := Option.bind_eq_some_iff.mp hmove
  obtain rfl := Option.some.inj hdone
  have hsame := (Link.resume_shifts hresume).id_eq
  obtain rfl := (link?_eq_some hl).2
  rcases Nat.lt_or_ge n l.id with hlater | hold
  · obtain ⟨l₀, hl₀, -, rfl⟩ := h.exists_link hl hlater
    rw [Link.resume?_raise, ← h.clock] at hresume
    obtain ⟨l₀', hresume₀, rfl⟩ := Option.map_eq_some_iff.mp hresume
    have hlater : Mirrors n base (w.updateLink (l₀.id + n) fun _ => l₀'.raise n)
        (v.updateLink l₀.id fun _ => l₀') := h.updateLater (fun _ _ _ => hsame) fun _ => rfl
    have hmove₀ : v.perform (.resume l₀.id) = some (v.updateLink l₀.id fun _ => l₀') := by
      simp only [perform, World.resume, hl₀, Option.bind_eq_bind, Option.bind_some, hresume₀]
      rfl
    exact ⟨_, Or.inr ⟨_, by simp, hmove₀⟩, hlater⟩
  · exact ⟨v, Or.inl rfl, h.updateOld hold fun _ _ _ => hsame⟩

/-- The agent is not part of its links. -/
@[simp] theorem updateLink_agent {id : ConnId} {f : Link → Link} :
    (w.updateLink id f).agent = w.agent := rfl

/-- The new agent is given up with the old one. -/
theorem Mirrors.dropAgent (h : Mirrors n base w v) : Mirrors n base w.dropAgent v.dropAgent := by
  have hpolled : w.agent.polled = v.agent.polled.map (· + n) := by
    rw [← h.agent]
    rfl
  have hlive : w.agent.live = v.agent.live.map (·.raise n) := by
    rw [← h.agent]
    rfl
  have hstopped (id : ConnId) :
      Mirrors n base (w.updateLink (id + n) Link.stopPolls) (v.updateLink id Link.stopPolls) :=
    h.updateLater (fun _ _ hl => hl) fun _ => rfl
  have hclosed {w v : World} (h : Mirrors n base w v) (id : ConnId) :
      Mirrors n base
        (w.updateLink (id + n) fun l => { l with worker := { l.worker with isClosed := true } })
        (v.updateLink id fun l => { l with worker := { l.worker with isClosed := true } }) :=
    h.updateLater (fun _ _ hl => hl) fun _ => rfl
  cases hp : v.agent.polled <;> cases hl : v.agent.live <;>
    simp only [World.dropAgent, updateLink_agent, hpolled, hlive, hp, hl, Option.map_none,
      Option.map_some]
  · exact { h with isOpen := rfl, queue := rfl }
  · exact { hclosed h _ with isOpen := rfl, queue := rfl }
  · exact { hstopped _ with isOpen := rfl, queue := rfl }
  · exact { hclosed (hstopped _) _ with isOpen := rfl, queue := rfl }

/-- Every move of the other parts is reflected beside the new agent. -/
theorem Mirrors.move {m : Move} (h : Mirrors n base w v) (hm : m ≠ .deliver)
    (hw : w.perform m = some w') : Reflected n base w' v := by
  have hmove {m : Move} {v' : World} (hm : m ≠ .deliver) (hv : v.perform m = some v')
      (hmirrors : Mirrors n base w' v') : Reflected n base w' v :=
    ⟨v', Or.inr ⟨m, hm, hv⟩, hmirrors⟩
  cases m with
  | deliver => exact absurd rfl hm
  | post event => exact h.post hw
  | link id move => exact h.moveLink hw
  | resume id => exact h.resume hw
  | advance ms =>
    obtain rfl := Option.some.inj hw
    exact hmove hm rfl { h with clock := congrArg (· + ms) h.clock }
  | failBus script =>
    obtain rfl := Option.some.inj hw
    exact hmove hm rfl { h with bus := rfl }
  | dropListener =>
    obtain rfl := Option.some.inj hw
    exact hmove hm rfl { h with hasListener := rfl }
  | dropAgent =>
    obtain rfl := Option.some.inj hw
    exact hmove hm rfl h.dropAgent

/-! ## Runs -/

/-- The whole around the old agent with what it has still to do, and the whole around the new one
with what that has. -/
structure Resumes (n : Nat) (base : World) (y y' : List Effect × World) : Prop where
  mirrors : Mirrors n base y.2 y'.2
  coherent : y.2.agent.Coherent
  spent : ∀ id ≤ n, y.2.agent.Spent id
  undone : y.1 = y'.1.map (·.raise n) ∨ y'.1 = [] ∧ y.1.filter Effect.isSeen = []
  created : ∀ id error, .create id error ∈ y'.1 → 0 < id

variable {y z y' : List Effect × World}

/-- A move of the other parts is answered by one beside the new agent, or by none. -/
theorem Resumes.move {m : Move} {undone' : List Effect}
    (h : Resumes n base (undone, w) (undone', v)) (hm : m ≠ .deliver)
    (hw : w.perform m = some w') :
    ∃ z', Relation.ReflTransGen Next (undone', v) z' ∧ Resumes n base (undone, w') z' := by
  obtain ⟨v', hv, hmirrors⟩ := h.mirrors.move hm hw
  have hsame : w'.agent = w.agent := (perform_aside hm hw).agent
  refine ⟨(undone', v'), ?_, hmirrors, ?_, ?_, h.undone, h.created⟩
  · rcases hv with rfl | ⟨m', hm', hv⟩
    · exact .refl
    · exact .single (.move hm' hv)
  · exact hsame ▸ h.coherent
  · exact hsame ▸ h.spent

/-- An event that the old agent takes the new one takes, too, unless it is of an old connection. -/
theorem Resumes.take {event : Event} {rest : List Event} (h : Resumes n base ([], w) ([], v))
    (r : Replies) (hqueue : w.queue = event :: rest) :
    ∃ z', Relation.ReflTransGen Next ([], v) z' ∧
      Resumes n base ((w.agent.step w.settings r event).2,
        { w with agent := (w.agent.step w.settings r event).1, queue := rest }) z' := by
  have hagent : v.agent.raise n = w.agent := h.mirrors.agent
  have hqueue₀ : v.queue = w.queue.filterMap (Event.lower? n) := h.mirrors.queue
  rw [hqueue] at hqueue₀
  have hcoherent : (w.agent.step w.settings r event).1.Coherent :=
    Agent.step_coherent h.coherent event
  have hspent : ∀ id ≤ n, (w.agent.step w.settings r event).1.Spent id :=
    fun id hid => (h.spent id hid).step h.coherent event r
  cases hlower : event.lower? n with
  | none =>
    -- The event belongs to an old connection, and is not in the queue of the new agent.
    obtain ⟨id, hevent, hid⟩ := Agent.exists_connection_of_lower? hlower
    obtain ⟨hself, hnothing⟩ : (w.agent.step w.settings r event).1 = w.agent ∧
      (w.agent.step w.settings r event).2.filter Effect.isSeen = [] :=
      Agent.step_of_stale hevent (h.spent id hid).2
    rw [List.filterMap_cons_none hlower] at hqueue₀
    refine ⟨([], v), .refl, ?_, hcoherent, hspent, Or.inr ⟨rfl, hnothing⟩, by simp⟩
    exact { h.mirrors with agent := hagent.trans hself.symm, queue := hqueue₀ }
  | some lowered =>
    obtain rfl := Agent.raise_of_lower? hlower
    rw [List.filterMap_cons_some hlower] at hqueue₀
    have hstep : w.agent.step w.settings r (lowered.raise n) =
        ((v.agent.step v.settings (r.lower n) lowered).1.raise n,
          (v.agent.step v.settings (r.lower n) lowered).2.map (·.raise n)) := by
      rw [← hagent, h.mirrors.settings]
      exact Agent.step_raise
    refine ⟨_, .single (.take (r.lower n) hqueue₀), ?_, hcoherent, hspent,
      Or.inl (congrArg Prod.snd hstep), fun id error hmem => ?_⟩
    · exact { h.mirrors with agent := (congrArg Prod.fst hstep).symm, queue := rfl }
    · -- The connection has the next number of the old agent.
      obtain ⟨first, second, hsplit⟩ := List.append_of_mem hmem
      have hcreate : (w.agent.step w.settings r (lowered.raise n)).2 =
          first.map (·.raise n) ++ .create (id + n) error :: second.map (·.raise n) := by
        rw [hstep]
        exact (congrArg (List.map (·.raise n)) hsplit).trans List.map_append
      have hnew : id + n = w.agent.issued + 1 :=
        ((Agent.step_stride h.coherent _).submitted_before_create hcreate).1
      have hlater : n < id + n := hnew ▸ Nat.lt_succ_of_le (h.spent n (Nat.le_refl n)).1
      exact Nat.pos_of_lt_add_left hlater

/-- What the old agent has to do and is seen the new one has to do, too. -/
theorem Resumes.act {effect : Effect} {undone' : List Effect}
    (h : Resumes n base (effect :: undone, w) (undone', v)) :
    ∃ z', Relation.ReflTransGen Next (undone', v) z' ∧
      Resumes n base (undone, w.apply effect) z' := by
  have hsame : (w.apply effect).agent = w.agent := (apply_frame effect).2.1
  have hcoherent : (w.apply effect).agent.Coherent := hsame ▸ h.coherent
  have hspent : ∀ id ≤ n, (w.apply effect).agent.Spent id := hsame ▸ h.spent
  -- Either both have the same to do, or the old agent only a warning about a stale event.
  rcases h.undone with hraised | ⟨hnone, hunseen⟩
  · obtain ⟨effect₀, rest, rfl, rfl, rfl⟩ := List.map_eq_cons_iff.mp hraised.symm
    refine ⟨_, .single .act, ?_, hcoherent, hspent, Or.inl rfl, fun id error hmem => ?_⟩
    · refine h.mirrors.act fun id error heffect => h.created id error ?_
      exact heffect ▸ List.mem_cons_self
    · exact h.created id error (List.mem_cons_of_mem _ hmem)
  · simp only [List.filter_eq_nil_iff, List.forall_mem_cons] at hunseen
    refine ⟨(undone', v), .refl, ?_, hcoherent, hspent, Or.inr ⟨hnone, ?_⟩, h.created⟩
    · exact h.mirrors.unseen (by simpa using hunseen.1)
    · exact List.filter_eq_nil_iff.mpr hunseen.2

/-- A step beside the old agent is answered by one beside the new agent, or by none. -/
theorem Resumes.next (h : Resumes n base y y') (hnext : Next y z) :
    ∃ z', Relation.ReflTransGen Next y' z' ∧ Resumes n base z z' := by
  obtain ⟨undone', v⟩ := y'
  cases hnext with
  | move hm hw => exact h.move hm hw
  | take r hqueue =>
    obtain rfl : undone' = [] := h.undone.elim (fun h => List.map_eq_nil_iff.mp h.symm) (·.1)
    exact h.take r hqueue
  | act => exact h.act

/-- So is every sequence of steps. -/
theorem Resumes.nexts (h : Resumes n base y y') (hnexts : Relation.ReflTransGen Next y z) :
    ∃ z', Relation.ReflTransGen Next y' z' ∧ Resumes n base z z' := by
  induction hnexts with
  | refl => exact ⟨y', .refl, h⟩
  | tail _ hnext ih =>
    obtain ⟨z', hz', hresumes⟩ := ih
    obtain ⟨z'', hz'', hresumes'⟩ := hresumes.next hnext
    exact ⟨z'', hz'.trans hz'', hresumes'⟩

variable {settings : Settings} {scripts : List Script} {bus : BusScript} {trace : List Happening}
  {past : List Agent.Moment}

/-- Once the agent has no call, the whole goes on as if it were new. -/
theorem Run.resumes (h : Run settings scripts bus trace past [] w)
    (hidle : w.agent.call.phase = .idle) (hrun : w.agent.isRunning = true) :
    Resumes w.agent.issued w ([], w) ([], w.renewed) := by
  have hcoherent := h.sound.coherent
  have hold : ∀ l ∈ w.links, ¬ w.agent.issued < l.id := by
    intro l hl
    have hmade : l.id ∈ Agent.made (Agent.effectsOf past) := by
      have hmem : l.id ∈ w.links.map (·.id) := List.mem_map_of_mem hl
      rw [h.kept.ids] at hmem
      rwa [← h.sound.effects, List.append_nil]
    exact Nat.not_lt.mpr (h.tended.le_issued _ hmade)
  refine ⟨?_, hcoherent, fun id hid => ⟨hid, ?_⟩, Or.inl rfl, by simp⟩
  · exact {
      settings := rfl, scripts := rfl, bus := rfl, queue := rfl, clock := rfl, hasListener := rfl,
      isOpen := rfl
      agent := (hcoherent.eq_raise hidle hrun).symm
      links := (List.filter_eq_nil_iff.mpr (by simpa using hold)).symm
      effects := List.append_nil _
      notices := List.append_nil _ }
  · simp [hcoherent.live_of_idle hidle]

/-- An agent that has no call goes on like a new one that is signed in if and only if it is. What
comes from the connections that it has had does not count, and those that it makes have higher
numbers: but for that, all that is seen from then on is the same, and so is the agent. With the
links, their workers and pollers, the bus and the clock around it, whatever the whole does from then
on, the whole around the new agent can do too. -/
theorem run_resumed (settings : Settings) :
    (∀ script later : List (Event × Replies),
      let used := (Agent.run settings script {}).1
      let fresh : Agent := { isSignedIn := used.isSignedIn }
      let same := later.filterMap (Event.lowerInput? used.issued)
      used.call.phase = .idle → used.isRunning = true →
        (Agent.run settings later used).1 = (Agent.run settings same fresh).1.raise used.issued ∧
          Agent.seen (Agent.history settings later used) =
            (Agent.seen (Agent.history settings same fresh)).map (·.raise used.issued)) ∧
    ∀ scripts bus trace past w, Run settings scripts bus trace past [] w →
      w.agent.call.phase = .idle → w.agent.isRunning = true →
        ∀ y, Relation.ReflTransGen Next ([], w) y →
          ∃ y', Relation.ReflTransGen Next ([], w.renewed) y' ∧
            Mirrors w.agent.issued w y.2 y'.2 := by
  refine ⟨fun script later hidle hrun => ?_, fun scripts bus trace past w h hidle hrun y hy => ?_⟩
  · exact Agent.run_of_idle settings script later hidle hrun
  · obtain ⟨y', hy', hresumes⟩ := (h.resumes hidle hrun).nexts hy
    exact ⟨y', hy', hresumes.mirrors⟩

/-- A call that fails. -/
def failedCall : List Move :=
  [.post (.command (.connect "bob")), .deliver, .post (.link 1 (.state .failed)), .deliver]

/-- After a call that has failed, the next one goes on as the first one of a new agent, though
something of the failed one comes too late. -/
theorem resumes_failedCall :
    let offer : Description := ⟨.offer, "v=0"⟩
    let script : List (Event × Replies) :=
      [(.command (.connect "bob"), {}), (.link 1 (.state .failed), {})]
    let later : List (Event × Replies) :=
      [(.outcome 1 (.localReady offer), {}), (.command (.connect "carol"), {}),
        (.outcome 2 (.localReady offer), {})]
    let same : List (Event × Replies) :=
      [(.command (.connect "carol"), {}), (.outcome 1 (.localReady offer), {})]
    let used := (Agent.run Settings.default script {}).1
    (used.call.phase = .idle ∧ used.isRunning = true ∧
      (Agent.run Settings.default later used).1 =
          (Agent.run Settings.default same {}).1.raise 1 ∧
        Agent.seen (Agent.history Settings.default later used) =
          (Agent.seen (Agent.history Settings.default same {})).map (·.raise 1)) ∧
    ∃ w, performAll { settings := Settings.default } failedCall = some w ∧
      w.agent.call.phase = .idle ∧ w.agent.isRunning = true ∧
        ∀ y, Relation.ReflTransGen Next ([], w) y →
          ∃ y', Relation.ReflTransGen Next ([], w.renewed) y' ∧
            Mirrors w.agent.issued w y.2 y'.2 := by
  have hfree : (performAll { settings := Settings.default } failedCall).map
      (fun w => (w.agent.call.phase, w.agent.isRunning)) = some (.idle, true) := by
    decide +kernel
  obtain ⟨w, hw, hagent⟩ := Option.map_eq_some_iff.mp hfree
  obtain ⟨hidle, hrun⟩ := Prod.mk.inj hagent
  obtain ⟨trace, past, h⟩ := Run.performAll .start hw
  obtain ⟨halone, hwhole⟩ := run_resumed Settings.default
  exact ⟨⟨by decide, by decide, halone _ _ (by decide) (by decide)⟩, w, hw, hidle, hrun,
    hwhole _ _ _ _ _ h hidle hrun⟩

end World

end PeerCall
