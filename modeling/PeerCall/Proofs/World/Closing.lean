import Mathlib.Data.List.Nodup
import Mathlib.Logic.Relation
import PeerCall.Proofs.Agent.Links
import PeerCall.Proofs.Link.Closing
import PeerCall.Proofs.World.Run

/-!
# The end of the links

The agent closes each link that it has made once, at the end of its session. The links themselves
see to it that no operation begins after that, whatever was left to their workers, and no poll but
those that a tick has started already.
-/

namespace PeerCall

/-- A link stands as what has been done to it says: before it is closed no call has closed it and
it polls only if it has been told to, and afterwards it is shut. -/
structure Link.Stands (l : Link) (effects : List Effect) : Prop where
  isOpen : l.id ∉ Agent.shut effects →
    l.IsOpen ∧ (l.isPolling = true → Agent.polls l.id effects = true)
  isShut : l.id ∈ Agent.shut effects → l.IsShut

namespace Link.Stands

variable {l l' : Link} {effects : List Effect} {effect : Effect}

/-- What changes neither the end of a link nor its polls leaves it standing. -/
theorem of_moved (h : l.Stands effects) (hid : l'.id = l.id) (hopen : l.IsOpen → l'.IsOpen)
    (hpolls : l'.isPolling = true → l.isPolling = true) (hshut : l.IsShut → l'.IsShut) :
    l'.Stands effects := by
  refine ⟨fun hnot => ?_, fun hmem => ?_⟩
  · rw [hid] at hnot ⊢
    obtain ⟨hl, htold⟩ := h.isOpen hnot
    exact ⟨hopen hl, fun hp => htold (hpolls hp)⟩
  · rw [hid] at hmem
    exact hshut (h.isShut hmem)

/-- So does an effect that neither closes the link nor concerns its polls. -/
theorem append (h : l.Stands effects) (hclose : effect.shut? ≠ some l.id)
    (hpolls : ∀ b, effect.rhythm? ≠ some (l.id, b)) : l.Stands (effects ++ [effect]) := by
  have hshut : l.id ∈ Agent.shut (effects ++ [effect]) ↔ l.id ∈ Agent.shut effects := by
    rw [Agent.shut_append]
    simpa [Agent.shut] using fun h => absurd h hclose
  have hsame : Agent.polls l.id (effects ++ [effect]) = Agent.polls l.id effects := by
    refine Agent.polls_append fun p hp hid => ?_
    obtain ⟨other, hmem, hrhythm⟩ := List.mem_filterMap.mp hp
    rw [List.mem_singleton.mp hmem] at hrhythm
    exact hpolls p.2 (by rw [hrhythm, ← hid])
  refine ⟨fun hnot => ?_, fun hmem => h.isShut (hshut.mp hmem)⟩
  rw [hsame]
  exact h.isOpen fun hmem => hnot (hshut.mpr hmem)

/-- What is done to another link leaves a link standing. -/
theorem of_other (h : l.Stands effects) (hother : effect.target? ≠ some l.id) :
    l.Stands (effects ++ [effect]) := by
  refine h.append (fun hclose => ?_) fun b hpolls => ?_
  · cases effect <;> simp_all [Effect.target?, Effect.shut?]
  · cases effect <;> simp_all [Effect.target?, Effect.rhythm?]

/-- An operation that is handed over leaves a link standing as it should. -/
theorem submit (h : l.Stands effects) (operation : Operation) :
    (l.submit operation).Stands (effects ++ [.submit l.id operation]) := by
  have hmoved : (l.submit operation).Stands effects := by
    refine h.of_moved rfl (fun hl => ⟨hl.closing, hl.closes_eq⟩) (fun h => h)
      fun hl => ?_
    have hsame : l.submit operation = l := by simp [Link.submit, Worker.submit?, hl.isDone]
    rwa [hsame]
  exact hmoved.append (by simp [Effect.shut?]) (by simp [Effect.rhythm?])

/-- So do polls that are started on an open link, -/
theorem startPolls (h : l.Stands effects) (hopen : l.id ∉ Agent.shut effects) (period now : Nat) :
    (l.startPolls period now).Stands (effects ++ [.startPolls l.id]) := by
  obtain ⟨hl, -⟩ := h.isOpen hopen
  have hpolls : Agent.polls l.id (effects ++ [.startPolls l.id]) = true := Agent.polls_of_last rfl
  have hshut : Agent.shut (effects ++ [.startPolls l.id]) = Agent.shut effects := by
    rw [Agent.shut_append]
    exact List.append_nil _
  refine ⟨fun _ => ⟨⟨hl.closing, hl.closes_eq⟩, fun _ => hpolls⟩, fun hmem => ?_⟩
  rw [hshut] at hmem
  exact absurd hmem hopen

/-- polls that are stopped, -/
theorem stopPolls (h : l.Stands effects) :
    l.stopPolls.Stands (effects ++ [.stopPolls l.id]) := by
  have hshut : Agent.shut (effects ++ [.stopPolls l.id]) = Agent.shut effects := by
    rw [Agent.shut_append]
    exact List.append_nil _
  refine ⟨fun hnot => ?_, fun hmem => ?_⟩
  · rw [hshut] at hnot
    obtain ⟨hl, -⟩ := h.isOpen hnot
    exact ⟨⟨hl.closing, hl.closes_eq⟩, fun hpolls => by simp at hpolls⟩
  · rw [hshut] at hmem
    have hl := h.isShut hmem
    exact ⟨hl.isDone, hl.waiting, hl.current, isPolling_stopPolls, hl.closing⟩

/-- and a close after the polls have been stopped. -/
theorem close (h : l.Stands effects) (hopen : l.id ∉ Agent.shut effects)
    (hrested : Agent.polls l.id effects = false) :
    l.close.Stands (effects ++ [.close l.id]) := by
  obtain ⟨hl, hpolls⟩ := h.isOpen hopen
  have hstopped : l.isPolling = false := Bool.eq_false_iff.mpr fun hpolling => by
    simp [hpolls hpolling] at hrested
  have hmem : l.id ∈ Agent.shut (effects ++ [.close l.id]) := by
    simp [Agent.shut, Effect.shut?]
  exact ⟨fun hnot => absurd hmem hnot, fun _ => hl.close hstopped⟩

end Link.Stands

namespace World

variable {settings : Settings} {scripts : List Script} {bus : BusScript} {trace : List Happening}
  {past : List Agent.Moment} {undone : List Effect} {w w' : World} {id : ConnId}

/-- The links are those that the agent has made, and each of them stands as it should. -/
structure Kept (w : World) : Prop where
  ids : w.links.map (·.id) = Agent.made w.effects
  stands : ∀ l ∈ w.links, l.Stands w.effects

/-- A link that changes keeps its number. -/
theorem updateLink_ids {f : Link → Link} (hf : ∀ l ∈ w.links, l.id = id → (f l).id = l.id) :
    (w.updateLink id f).links.map (·.id) = w.links.map (·.id) := by
  simp only [updateLink, List.map_map, List.map_inj_left, Function.comp_apply]
  intro l hl
  split
  · next hid => exact hf l hl hid
  · rfl

/-- Changing one link so that it still stands keeps the links. -/
theorem Kept.update {f : Link → Link} (h : Kept w)
    (hf : ∀ l ∈ w.links, l.id = id → (f l).id = l.id ∧ (f l).Stands w.effects) :
    Kept (w.updateLink id f) := by
  refine ⟨(updateLink_ids fun l hl hid => (hf l hl hid).1).trans h.ids, fun l' hl' => ?_⟩
  obtain ⟨l, hl, rfl⟩ := mem_updateLink.mp hl'
  split
  · next hid => exact (hf l hl hid).2
  · exact h.stands l hl

/-- What the end of polls and the end of a worker keep is kept when the agent is given up. -/
theorem dropAgent_keeps {p : World → Prop}
    (hpoller : ∀ v id, p v → p (v.updateLink id Link.stopPolls))
    (hworker : ∀ v id, p v → p (v.updateLink id fun l =>
      { l with worker := { l.worker with isClosed := true } }))
    (hend : ∀ v, p v → p { v with isOpen := false, queue := [] }) (h : p w) : p w.dropAgent := by
  unfold dropAgent
  refine hend _ ?_
  dsimp only
  split
  · refine hworker _ _ ?_
    split
    · exact hpoller _ _ h
    · exact h
  · split
    · exact hpoller _ _ h
    · exact h

/-- A part other than the agent keeps the links. -/
theorem Kept.perform {m : Move} (h : Kept w) (hm : m ≠ .deliver) (hw : w.perform m = some w') :
    Kept w' := by
  cases perform_makes hm hw with
  | @link l l' _ _ hl hmove =>
    have hid : l'.id = l.id := (Link.perform_shifts hmove).id_eq
    have hstands : l'.Stands w.effects := by
      refine (h.stands l (link?_eq_some hl).1).of_moved hid
        (fun hopen => hopen.ages (Link.perform_ages hmove)) ?_ fun hshut => (hshut.perform hmove).1
      exact Link.perform_isPolling hmove
    have hkept : Kept (w.updateLink l.id fun _ => l') :=
      h.update fun l₀ _ hid₀ => ⟨hid.trans hid₀.symm, hstands⟩
    exact ⟨hkept.ids, hkept.stands⟩
  | @resume l l' hl hresume =>
    have hid : l'.id = l.id := (Link.resume_shifts hresume).id_eq
    have hstands : l'.Stands w.effects := by
      refine (h.stands l (link?_eq_some hl).1).of_moved hid (fun hopen => hopen.resume hresume) ?_
        fun hshut => (hshut.resume hresume).1
      rw [Link.resume_isPolling hresume]
      exact fun hpolls => hpolls
    exact h.update fun l₀ _ hid₀ => ⟨hid.trans hid₀.symm, hstands⟩
  | post | advance | failBus | dropListener => exact ⟨h.ids, h.stands⟩
  | dropAgent =>
    refine dropAgent_keeps (fun v id hv => ?_) (fun v id hv => ?_) (fun v hv => ?_) h
    · exact hv.update fun l hl _ => ⟨rfl, (hv.stands l hl).of_moved rfl
        (fun hopen => ⟨hopen.closing, hopen.closes_eq⟩) (fun hpolls => by simp at hpolls)
        fun hshut => ⟨hshut.isDone, hshut.waiting, hshut.current, Link.isPolling_stopPolls,
          hshut.closing⟩⟩
    · exact hv.update fun l hl _ => ⟨rfl, (hv.stands l hl).of_moved rfl
        (fun hopen => ⟨hopen.closing, hopen.closes_eq⟩) (fun hpolls => hpolls)
        fun hshut => ⟨hshut.isDone, hshut.waiting, hshut.current, hshut.stopped, hshut.closing⟩⟩
    · exact ⟨hv.ids, hv.stands⟩

/-- An effect that makes no link may change the one that it touches. -/
theorem Kept.touches {effect : Effect} {v : World} (h : Kept w) (id : ConnId) (f : Link → Link)
    (hmade : effect.made? = none) (hv : v.links = (w.updateLink id f).links)
    (heffects : v.effects = w.effects ++ [effect])
    (hother : ∀ other ≠ id, effect.target? ≠ some other)
    (hf : ∀ l ∈ w.links, l.id = id → (f l).id = l.id ∧ (f l).Stands (w.effects ++ [effect])) :
    Kept v := by
  refine ⟨?_, fun l' hl' => ?_⟩
  · rw [hv, heffects, updateLink_ids fun l hl hid => (hf l hl hid).1, h.ids, Agent.made_append]
    simp [Agent.made, hmade]
  · rw [hv] at hl'
    rw [heffects]
    obtain ⟨l, hl, rfl⟩ := mem_updateLink.mp hl'
    split
    · next hid => exact (hf l hl hid).2
    · next hid => exact (h.stands l hl).of_other (hother l.id hid)

/-- An effect that touches no link leaves all links as they are. -/
theorem Kept.silent {effect : Effect} {v : World} (h : Kept w) (hmade : effect.made? = none)
    (hv : v.links = w.links) (heffects : v.effects = w.effects ++ [effect])
    (hnone : ∀ id, effect.shut? ≠ some id) (hpolls : effect.rhythm? = none) : Kept v := by
  refine ⟨?_, fun l hl => ?_⟩
  · rw [hv, heffects, h.ids, Agent.made_append]
    simp [Agent.made, hmade]
  · rw [hv] at hl
    rw [heffects]
    exact (h.stands l hl).append (hnone l.id) (by simp [hpolls])

/-- A new link stands as it should. -/
theorem Kept.creates (h : Kept w) (hid : id ∉ Agent.shut w.effects) :
    Kept (w.apply (.create id none)) := by
  refine ⟨?_, fun l hl => ?_⟩
  · change (w.links ++ [({ id := id, script := w.scriptOf id } : Link)]).map Link.id =
      Agent.made (w.effects ++ [.create id none])
    rw [List.map_append, h.ids, Agent.made_append]
    rfl
  · rcases List.mem_append.mp hl with hold | hnew
    · exact (h.stands l hold).append (by simp [Effect.shut?]) (by simp [Effect.rhythm?])
    · obtain rfl := List.mem_singleton.mp hnew
      have hopen : id ∉ Agent.shut (w.effects ++ [.create id none]) := by
        rw [Agent.shut_append]
        simpa [Agent.shut, Effect.shut?] using hid
      exact ⟨fun _ => ⟨Link.isOpen_new, fun hpolls => by simp [Link.isPolling] at hpolls⟩,
        fun hmem => absurd hmem hopen⟩

/-- So does everything that the agent does. -/
theorem Kept.act {effect : Effect} (h : Kept w)
    (hfinal : Agent.Final (w.effects ++ effect :: undone))
    (hrested : Agent.Rested (w.effects ++ effect :: undone)) : Kept (w.apply effect) := by
  have hopen (id : ConnId) (htarget : effect.target? = some id) : id ∉ Agent.shut w.effects :=
    fun hmem => hfinal.target_ne hmem htarget
  cases effect with
  | create id error =>
    cases error with
    | some error => exact h.silent rfl rfl rfl (by simp [Effect.shut?]) rfl
    | none => exact h.creates (hopen id rfl)
  | submit id operation =>
    refine h.touches id (fun l => l.submit operation) rfl rfl rfl ?_ fun l hl hid => ⟨rfl, ?_⟩
    · simp [Effect.target?, eq_comm]
    · rw [← hid]
      exact (h.stands l hl).submit operation
  | startPolls id =>
    refine h.touches id (fun l => l.startPolls w.settings.statsIntervalMs.toNat w.clock) rfl
      rfl rfl ?_ fun l hl hid => ⟨rfl, ?_⟩
    · simp [Effect.target?, eq_comm]
    · rw [← hid]
      exact (h.stands l hl).startPolls (hid ▸ hopen id rfl) _ _
  | stopPolls id =>
    refine h.touches id Link.stopPolls rfl rfl rfl ?_ fun l hl hid => ⟨rfl, ?_⟩
    · simp [Effect.target?, eq_comm]
    · rw [← hid]
      exact (h.stands l hl).stopPolls
  | close id =>
    refine h.touches id Link.close rfl rfl rfl ?_ fun l hl hid => ⟨rfl, ?_⟩
    · simp [Effect.target?, eq_comm]
    · rw [← hid]
      exact (h.stands l hl).close (hid ▸ hopen id rfl) (hid ▸ hrested _ _ _ rfl)
  | notify notice =>
    refine h.silent rfl ?_ (apply_frame _).2.2.2 (by simp [Effect.shut?]) rfl
    cases hlistener : w.hasListener <;> simp [apply, hlistener]
  | _ => exact h.silent rfl rfl rfl (by simp [Effect.shut?]) rfl

/-! ## Runs -/

/-- The links that the agent of a run has made and closed. -/
theorem Run.tended (h : Run settings scripts bus trace past undone w) :
    Agent.Tended past w.agent := by
  obtain ⟨script, rfl, hagent⟩ := h.sound.agent
  rw [hagent]
  exact Agent.run_tended script

/-- Every run keeps its links. -/
theorem Run.kept (h : Run settings scripts bus trace past undone w) : Kept w := by
  induction h with
  | start => exact ⟨rfl, by simp⟩
  | move _ hm hw ih => exact ih.perform hm hw
  | take _ _ _ ih => exact ⟨ih.ids, ih.stands⟩
  | act h ih =>
    have htended := h.tended
    have hfinal := htended.final
    have hrested := htended.rested
    rw [← h.sound.effects] at hfinal hrested
    exact ih.act hfinal hrested

/-- No two links belong to the same connection. -/
theorem Run.nodup_ids (h : Run settings scripts bus trace past undone w) :
    (w.links.map (·.id)).Nodup := by
  have hnodup := h.tended.nodup
  rw [← h.sound.effects, Agent.made_append] at hnodup
  rw [h.kept.ids]
  exact hnodup.of_append_left

/-- One step of a run, with what is still to be done for the agent. -/
inductive Next : List Effect × World → List Effect × World → Prop
  | move {undone : List Effect} {w w' : World} {m : Move} (hm : m ≠ .deliver)
      (hw : w.perform m = some w') : Next (undone, w) (undone, w')
  | take {w : World} {event : Event} {rest : List Event} (r : Replies)
      (hqueue : w.queue = event :: rest) :
      Next ([], w) ((w.agent.step w.settings r event).2,
        { w with agent := (w.agent.step w.settings r event).1, queue := rest })
  | act {effect : Effect} {undone : List Effect} {w : World} :
      Next (effect :: undone, w) (undone, w.apply effect)

/-- A run goes on by steps. -/
theorem Run.next {y : List Effect × World} (h : Run settings scripts bus trace past undone w)
    (hnext : Next (undone, w) y) : ∃ trace past, Run settings scripts bus trace past y.1 y.2 := by
  cases hnext with
  | move hm hw => exact ⟨_, _, h.move hm hw⟩
  | take r hqueue => exact ⟨_, _, h.take r hqueue⟩
  | act => exact ⟨_, _, h.act⟩

/-- If the link of a connection winds down, each link winds down or stays. -/
theorem updateLink_windsDown {id : ConnId} {f : Link → Link} {l : Link} (hl : l ∈ w.links)
    (hf : l.id = id → l.WindsDown (f l)) :
    ∃ l' ∈ (w.updateLink id f).links, l.WindsDown l' := by
  refine ⟨_, mem_updateLink.mpr ⟨l, hl, rfl⟩, ?_⟩
  split
  · next hid => exact hf hid
  · exact .refl

/-- Where no two links belong to the same connection, each is the link of its connection. -/
theorem link?_of_mem {l : Link} (hids : (w.links.map (·.id)).Nodup) (hl : l ∈ w.links) :
    w.link? l.id = some l := by
  obtain ⟨l₀, hl₀⟩ : ∃ l₀, w.link? l.id = some l₀ :=
    Option.isSome_iff_exists.mp (List.find?_isSome.mpr ⟨l, hl, by simp⟩)
  obtain ⟨hmem, hid⟩ := link?_eq_some hl₀
  rw [hl₀, List.inj_on_of_nodup_map hids hmem hl hid]

/-- A move of another part begins nothing on a link that is shut but what may still begin on it. -/
theorem perform_windsDown {m : Move} {l : Link} (hids : (w.links.map (·.id)).Nodup)
    (hl : l ∈ w.links) (hshut : l.IsShut) (hm : m ≠ .deliver) (hw : w.perform m = some w') :
    ∃ l' ∈ w'.links, l.WindsDown l' := by
  have hfound := link?_of_mem hids hl
  cases perform_makes hm hw with
  | post | advance | failBus | dropListener => exact ⟨l, hl, .refl⟩
  | link hl₀ hmove =>
    refine updateLink_windsDown hl fun hid => ?_
    rw [hid, hl₀] at hfound
    obtain rfl := Option.some.inj hfound
    exact (hshut.perform hmove).2
  | resume hl₀ hresume =>
    refine updateLink_windsDown hl fun hid => ?_
    rw [hid, hl₀] at hfound
    obtain rfl := Option.some.inj hfound
    exact (hshut.resume hresume).2
  | dropAgent =>
    have hgoesOn {v : World} {id : ConnId} {f : Link → Link}
        (hf : ∀ l₀ : Link, l₀.WindsDown (f l₀)) (hv : ∃ l' ∈ v.links, l.WindsDown l') :
        ∃ l' ∈ (v.updateLink id f).links, l.WindsDown l' := by
      obtain ⟨l', hl', hwinds⟩ := hv
      obtain ⟨l'', hl'', hwinds'⟩ := updateLink_windsDown hl' fun _ => hf l'
      exact ⟨l'', hl'', hwinds.trans hwinds'⟩
    exact dropAgent_keeps (p := fun v => ∃ l' ∈ v.links, l.WindsDown l')
      (fun _ _ => hgoesOn fun _ => Link.windsDown_stopPolls)
      (fun _ _ => hgoesOn fun _ => .of_calls_eq rfl rfl (Nat.le_refl _)) (fun _ hv => hv)
      ⟨l, hl, .refl⟩

/-- What the agent does leaves the links alone that it does not touch. -/
theorem mem_apply {effect : Effect} {l : Link} (hl : l ∈ w.links)
    (hother : effect.target? ≠ some l.id) : l ∈ (w.apply effect).links := by
  have hupdate {id : ConnId} {f : Link → Link} (hid : l.id ≠ id) :
      l ∈ (w.updateLink id f).links :=
    mem_updateLink.mpr ⟨l, hl, if_neg hid⟩
  cases effect with
  | create id error =>
    cases error with
    | some error => exact hl
    | none => exact List.mem_append_left _ hl
  | submit | startPolls | stopPolls | close =>
    exact hupdate fun hid => hother (congrArg some hid.symm)
  | notify notice => cases hlistener : w.hasListener <;> simpa [apply, hlistener] using hl
  | _ => exact hl

/-- Nor does any other step of a run. -/
theorem Run.next_windsDown {l : Link} {y : List Effect × World}
    (h : Run settings scripts bus trace past undone w) (hl : l ∈ w.links)
    (hshut : l.id ∈ Agent.shut w.effects) (hnext : Next (undone, w) y) :
    ∃ l' ∈ y.2.links, l.WindsDown l' ∧ l'.id ∈ Agent.shut y.2.effects := by
  cases hnext with
  | move hm hw =>
    obtain ⟨l', hl', hwinds⟩ :=
      perform_windsDown h.nodup_ids hl ((h.kept.stands l hl).isShut hshut) hm hw
    refine ⟨l', hl', hwinds, ?_⟩
    rw [hwinds.id_eq, (perform_aside hm hw).effects]
    exact hshut
  | take r hqueue => exact ⟨l, hl, .refl, hshut⟩
  | @act effect =>
    have hfinal := h.tended.final
    rw [← h.sound.effects] at hfinal
    refine ⟨l, mem_apply hl (hfinal.target_ne hshut), .refl, ?_⟩
    rw [(apply_frame effect).2.2.2, Agent.shut_append]
    exact List.mem_append_left _ hshut

/-- However a run goes on, nothing begins on a link that has been closed but what may still begin on
it. -/
theorem Run.nexts_windsDown {l : Link} {y : List Effect × World}
    (h : Run settings scripts bus trace past undone w) (hl : l ∈ w.links)
    (hshut : l.id ∈ Agent.shut w.effects)
    (hnexts : Relation.ReflTransGen Next (undone, w) y) : ∃ l' ∈ y.2.links, l.WindsDown l' := by
  have hall : (∃ trace past, Run settings scripts bus trace past y.1 y.2) ∧
      ∃ l' ∈ y.2.links, l.WindsDown l' ∧ l'.id ∈ Agent.shut y.2.effects := by
    induction hnexts with
    | refl => exact ⟨⟨trace, past, h⟩, l, hl, .refl, hshut⟩
    | tail _ hnext ih =>
      obtain ⟨⟨trace', past', hrun⟩, l', hl', hwinds, hshut'⟩ := ih
      obtain ⟨l'', hl'', hwinds', hshut''⟩ := hrun.next_windsDown hl' hshut' hnext
      exact ⟨hrun.next hnext, l'', hl'', hwinds.trans hwinds', hshut''⟩
  obtain ⟨-, l', hl', hwinds, -⟩ := hall
  exact ⟨l', hl', hwinds⟩

/-- A link of a run makes the moves that it can make. -/
theorem Run.isSome_perform_link {l : Link} {move : Link.Move}
    (h : Run settings scripts bus trace past undone w) (hl : l ∈ w.links) :
    (w.perform (.link l.id move)).isSome = (l.perform w.clock w.isOpen move).isSome := by
  have hfound := link?_of_mem h.nodup_ids hl
  cases hmove : l.perform w.clock w.isOpen move <;>
    simp [World.perform, moveLink, hfound, hmove]

/-- Every link that the agent makes it closes once, in the step that ends the session of its
connection. So as many links are made as are closed, and one more while there is a connection, and
once the agent has been shut down all are closed. Nothing has been done to close a link before.
Afterwards no operation begins on it but the call that closes it, which can begin at once and begins
only once, whatever was left to its worker. No tick is seen there any more. A poll begins only if a
tick has started it before, and none does when the poller has gone away, which it can at any
time. -/
theorem run_closed (h : Run settings scripts bus trace past undone w) :
    (∀ m ∈ past, ∀ id, id ∈ Agent.shut m.effects ↔
      (m.before.live.map (·.id) = some id ∨ id ∈ Agent.made m.effects) ∧
        m.after.live.map (·.id) ≠ some id) ∧
    (Agent.made (Agent.effectsOf past)).Nodup ∧
    Agent.made (Agent.effectsOf past) =
      Agent.shut (Agent.effectsOf past) ++ (w.agent.live.map (·.id)).toList ∧
    ((∃ m ∈ past, m.event = .command .shutdown) →
      Agent.made (Agent.effectsOf past) = Agent.shut (Agent.effectsOf past)) ∧
    w.effects ++ undone = Agent.effectsOf past ∧
    w.links.map (·.id) = Agent.made w.effects ∧
    (∀ l ∈ w.links, l.id ∉ Agent.shut w.effects → l.closes = 0) ∧
    ∀ l ∈ w.links, l.id ∈ Agent.shut w.effects →
      l.closes ≤ 1 ∧
      (l.closes = 0 → (w.perform (.link l.id .beginClose)).isSome = true) ∧
      w.perform (.link l.id .tick) = none ∧
      (l.poller = none → l.waitingPolls = []) ∧
      (l.poller ≠ none → (w.perform (.link l.id .dropPolls)).isSome = true) ∧
      ∀ y, Relation.ReflTransGen Next (undone, w) y → ∃ l' ∈ y.2.links, l.WindsDown l' := by
  have htended := h.tended
  have hkept := h.kept
  have hall (l : Link) (hl : l ∈ w.links) (hshut : l.id ∈ Agent.shut w.effects) : l.IsShut :=
    (hkept.stands l hl).isShut hshut
  refine ⟨fun m hm id => ?_, htended.nodup, htended.balance, fun hshutdown => ?_, h.sound.effects,
    hkept.ids, fun l hl hopen => ((hkept.stands l hl).isOpen hopen).1.closes_eq,
    fun l hl hshut => ⟨?_, fun hcloses => ?_, ?_, fun hgone => by simp [Link.waitingPolls, hgone],
      fun hpoller => ?_, fun y => h.nexts_windsDown hl hshut⟩⟩
  · obtain ⟨script, rfl, -⟩ := h.sound.agent
    obtain ⟨a, event, r, ha, rfl⟩ := Agent.exists_moment script m hm
    exact ((Agent.step_stride ha event).tends ha).mem_shut
  · have hnone := (h.sound.coherent.stopped (htended.stopped hshutdown)).1
    rw [htended.balance, hnone]
    exact List.append_nil _
  · rcases (hall l hl hshut).closing with ⟨-, hcloses⟩ | ⟨-, hcloses⟩ <;> omega
  · rw [h.isSome_perform_link hl]
    exact (hall l hl hshut).canClose hcloses
  · have htick : l.perform w.clock w.isOpen .tick = none :=
      (hall l hl hshut).perform_eq_none (by simp)
    rw [← Option.not_isSome_iff_eq_none, h.isSome_perform_link hl, htick]
    simp
  · rw [h.isSome_perform_link hl]
    exact (hall l hl hshut).canDrop hpoller

/-- A call that is ended while an operation waits at the worker. -/
def earlyEnd : List Move :=
  [.post (.command (.connect "bob")), .post (.command .disconnect), .deliver, .deliver,
    .link 1 .beginClose]

/-- The link is closed, and the operation is not run. -/
theorem closes_earlyEnd :
    ∃ w, performAll { settings := Settings.default } earlyEnd = some w ∧
      w.links.map (·.calls) = [[.close]] ∧
      ∃ trace past, Run Settings.default [] {} trace past [] w ∧
        Agent.made (Agent.effectsOf past) =
          Agent.shut (Agent.effectsOf past) ++ (w.agent.live.map (·.id)).toList ∧
        ∀ l ∈ w.links, l.id ∈ Agent.shut w.effects → l.closes ≤ 1 := by
  have hcalls : (performAll { settings := Settings.default } earlyEnd).map
      (fun w => w.links.map (·.calls)) = some [[.close]] := by
    decide +kernel
  obtain ⟨w, hw, hlinks⟩ := Option.map_eq_some_iff.mp hcalls
  obtain ⟨trace, past, hrun⟩ := Run.performAll .start hw
  obtain ⟨-, -, hbalance, -, -, -, -, hshut⟩ := run_closed hrun
  exact ⟨w, hw, hlinks, trace, past, hrun, hbalance, fun l hl hid => (hshut l hl hid).1⟩

/-- A call that is ended when a tick has been seen and its poll has not begun. -/
def latePoll : List Move :=
  [.post (.command (.connect "bob")), .deliver, .link 1 .beginOperation, .link 1 .endOperation,
    .deliver, .post (.bus (.message "bob" "\x7b\"type\":\"answer\",\"sdp\":\"v=0\"\x7d")),
    .deliver, .advance 1000, .link 1 .tick, .post (.command .disconnect), .deliver]

/-- The poll begins after the step in which the link is closed. -/
theorem begins_latePoll :
    ∃ w w' trace past, performAll { settings := Settings.default } latePoll = some w ∧
      Run Settings.default [] {} trace past [] w ∧ Agent.shut w.effects = [1] ∧
      w.links.map (·.calls.count .poll) = [0] ∧
      Relation.ReflTransGen Next ([], w) ([], w') ∧ w'.links.map (·.calls.count .poll) = [1] := by
  have hcall : (performAll { settings := Settings.default } latePoll).map (fun w =>
      (Agent.shut w.effects, w.links.map (·.calls.count .poll),
        (w.perform (.link 1 (.beginPoll 0))).map fun w' => w'.links.map (·.calls.count .poll))) =
        some ([1], [0], some [1]) := by
    decide +kernel
  obtain ⟨w, hw, hstate⟩ := Option.map_eq_some_iff.mp hcall
  simp only [Prod.mk.injEq] at hstate
  obtain ⟨hshut, hnone, hnext⟩ := hstate
  obtain ⟨w', hw', hone⟩ := Option.map_eq_some_iff.mp hnext
  obtain ⟨trace, past, hrun⟩ := Run.performAll .start hw
  exact ⟨w, w', trace, past, hw, hrun, hshut, hnone, .single (.move (by simp) hw'), hone⟩

end World

end PeerCall
