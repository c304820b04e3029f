import PeerCall.Proofs.Agent.Session

/-!
# Events of dead connections

An event that carries the number of a connection is stale if another connection, or none, is live
when it is handled. Stale events leave no trace but warnings, so they can be taken out of a run. A
connection that has been given up stays dead, so all its later events are stale.
-/

namespace PeerCall

/-- The connection whose number an event carries. -/
def Event.connection? : Event → Option ConnId
  | .link id _ | .outcome id _ | .records id _ => some id
  | .command _ | .bus _ => none

/-- Whether an effect is seen outside the log. -/
def Effect.isSeen : Effect → Bool
  | .warn _ => false
  | _ => true

/-- The connection that an effect gives up, or that could not be made. -/
def Effect.dropped? : Effect → Option ConnId
  | .close id => some id
  | .create id (some _) => some id
  | _ => none

/-- A list with some members left out, all of one kind. -/
inductive Thinned {α : Type} (p : α → Prop) : List α → List α → Prop
  | nil : Thinned p [] []
  | keep {x : α} {whole kept : List α} (h : Thinned p whole kept) :
      Thinned p (x :: whole) (x :: kept)
  | drop {x : α} {whole kept : List α} (hx : p x) (h : Thinned p whole kept) :
      Thinned p (x :: whole) kept

namespace Agent

variable {settings : Settings} {a : Agent} {r : Replies} {event : Event}
  {x : Agent × List Effect} {id : ConnId}

/-! ## Stale events are transparent -/

/-- Whether the event of a step belonged to a connection that was not the live one. -/
def Moment.IsStale (m : Moment) : Prop :=
  ∃ id, m.event.connection? = some id ∧ m.before.live.map (·.id) ≠ some id

/-- The event of a step, and what the surroundings answered. -/
def Moment.input (m : Moment) : Event × Replies := (m.event, m.replies)

/-- What was done in some steps and is seen outside the log. -/
def seen (steps : List Moment) : List Effect := (steps.flatMap (·.effects)).filter Effect.isSeen

/-- A stale event changes nothing. -/
theorem step_of_stale (hevent : event.connection? = some id)
    (hother : a.live.map (·.id) ≠ some id) :
    (a.step settings r event).1 = a ∧ (a.step settings r event).2.filter Effect.isSeen = [] := by
  have hstale (handle : Agent → Turn) :
      finish (a.ifLive id handle) = (a, [.warn (.discarded (.stale id))]) := by
    simp [ifLive, hother]
  have hhandle : finish (a.handle settings r event) = (a, [.warn (.discarded (.stale id))]) := by
    cases event with
    | command | bus => simp [Event.connection?] at hevent
    | link id' news | outcome id' outcome | records id' records =>
      obtain rfl : id' = id := Option.some.inj hevent
      exact hstale _
  unfold step
  split
  · simp [hhandle, Effect.isSeen]
  · simp

/-- Stale events can be taken out of a run from any agent. -/
theorem history_thinned {script : List (Event × Replies)} {kept : List Moment}
    (h : Thinned Moment.IsStale (history settings script a) kept) :
    history settings (kept.map Moment.input) a = kept ∧
      (run settings (kept.map Moment.input) a).1 = (run settings script a).1 ∧
      seen kept = seen (history settings script a) := by
  induction script generalizing a kept with
  | nil =>
    cases h
    exact ⟨rfl, rfl, rfl⟩
  | cons input script ih =>
    obtain ⟨event, r⟩ := input
    cases h with
    | @keep _ _ kept h =>
      obtain ⟨hhistory, hrun, hseen⟩ := ih h
      refine ⟨?_, hrun, ?_⟩
      · exact congrArg (a.moment settings event r :: ·) hhistory
      · simp only [seen] at hseen
        simp [seen, history, hseen]
    | drop hx h =>
      obtain ⟨id, hevent, hother⟩ := hx
      obtain ⟨hself, hnothing⟩ : (a.step settings r event).1 = a ∧
        (a.step settings r event).2.filter Effect.isSeen = [] := step_of_stale hevent hother
      rw [hself] at h
      obtain ⟨hhistory, hrun, hseen⟩ := ih h
      refine ⟨hhistory, ?_, ?_⟩
      · simp [hrun, run, hself]
      · simp only [seen, history, List.flatMap_cons, List.filter_append, moment, hnothing,
          List.nil_append, hself] at hseen ⊢
        exact hseen

/-! ## Connections stay dead -/

/-- The connections that are given up, or that could not be made. -/
def dropped (effects : List Effect) : List ConnId := effects.filterMap Effect.dropped?

/-- The end of a call gives up its connection. -/
theorem dropped_parting {failure : Option String} :
    (a.parting failure).filterMap Effect.dropped? = (a.live.map (·.id)).toList := by
  cases hp : a.polled <;> cases hl : a.live <;>
    simp [parting, hp, hl, List.filterMap_cons, Effect.dropped?]

/-- A step that gives up a connection leaves none. -/
theorem Stride.dropped (ha : a.Coherent) (hx : Stride settings r a event x) :
    Agent.dropped x.2 = [] ∨
      ∃ id, Agent.dropped x.2 = [id] ∧ id ≤ x.1.issued ∧ x.1.live = none := by
  have hflush (b : Agent) : (finish (b.flush r)).2.filterMap Effect.dropped? = [] :=
    filterMap_flush (fun _ _ _ => rfl) fun _ => rfl
  have hgone {l : Live} {effects : List Effect} {b : Agent} (hl : a.live = some l)
      (hdropped : effects.filterMap Effect.dropped? = (a.live.map (·.id)).toList)
      (hissued : b.issued = a.issued) (hlive : b.live = none) :
      Agent.dropped effects = [] ∨
        ∃ id, Agent.dropped effects = [id] ∧ id ≤ b.issued ∧ b.live = none := by
    right
    refine ⟨l.id, by rw [Agent.dropped, hdropped, hl]; rfl, ?_, hlive⟩
    exact Nat.le_of_eq ((ha.id_eq_issued l hl).trans hissued.symm)
  cases hx with
  | @opened event peer offer => cases offer <;> exact Or.inl rfl
  | notCreated hphase =>
    have hl := ha.live_of_idle hphase
    refine Or.inr ⟨a.issued + 1, ?_, Nat.le_refl _, hl⟩
    simp [Agent.dropped, List.filterMap_cons, Effect.dropped?, dropped_parting, hl]
  | notOpened hphase =>
    refine Or.inr ⟨a.issued + 1, ?_, Nat.le_refl _, ha.live_of_idle hphase⟩
    simp only [Agent.dropped, List.filterMap_cons, List.filterMap_append, List.filterMap_map,
      Function.comp_def, Effect.dropped?, List.filterMap_none, List.nil_append, dropped_parting]
    rfl
  | broken hl | failed hl | left hl | hungUp hl | closed hl =>
    refine hgone hl ?_ rfl rfl
    simp only [List.filterMap_cons, List.filterMap_append, List.filterMap_nil, List.filterMap_map,
      Function.comp_def, Effect.dropped?, List.filterMap_none, List.nil_append, List.append_nil,
      dropped_parting, apply_ite (List.filterMap Effect.dropped?), ite_self]
  | _ =>
    left
    simp only [Agent.dropped, List.filterMap_cons, List.filterMap_append, List.filterMap_nil,
      List.filterMap_map, Function.comp_def, Effect.dropped?, List.filterMap_none,
      List.nil_append, hflush, apply_ite (List.filterMap Effect.dropped?), ite_self, finish_after]

/-- A connection was given up in some steps or could not be made, or was live before one of them
and not after it. -/
def Gone (steps : List Moment) (id : ConnId) : Prop :=
  id ∈ dropped (steps.flatMap (·.effects)) ∨
    ∃ m ∈ steps, m.before.live.map (·.id) = some id ∧ m.after.live.map (·.id) ≠ some id

/-- A number that has been given out, and is not that of the live connection. -/
def Spent (a : Agent) (id : ConnId) : Prop := id ≤ a.issued ∧ a.live.map (·.id) ≠ some id

/-- A number that is spent stays so. -/
theorem Spent.step (ha : a.Coherent) (h : a.Spent id) (event : Event) (r : Replies) :
    (a.step settings r event).1.Spent id := by
  have hstride : Stride settings r a event _ := step_stride ha event
  obtain ⟨hissued, hother⟩ := h
  refine ⟨?_, ?_⟩
  · exact Nat.le_trans hissued hstride.issued_le
  · cases hstride.passage ha with
    | rests _ hlive | ends _ hlive => simp [hlive]
    | begins _ hlive =>
      have hne : a.issued + 1 ≠ id := Nat.ne_of_gt (Nat.lt_succ_of_le hissued)
      simpa [hlive] using hne
    | goesOn hl hlive hid => simpa [hlive, hid, hl] using hother

/-- A spent number is never live in what follows. -/
theorem Spent.history (ha : a.Coherent) (h : a.Spent id) (later : List (Event × Replies)) :
    (run settings later a).1.Spent id ∧
      ∀ m ∈ Agent.history settings later a, m.before.live.map (·.id) ≠ some id := by
  induction later generalizing a with
  | nil => exact ⟨h, by simp [Agent.history]⟩
  | cons input later ih =>
    obtain ⟨event, r⟩ := input
    obtain ⟨hlast, hlater⟩ := ih (step_coherent ha event) (h.step ha event r)
    refine ⟨hlast, ?_⟩
    simp only [Agent.history, List.forall_mem_cons]
    exact ⟨h.2, hlater⟩

/-- The number of a connection that is gone is spent. -/
theorem run_gone (script : List (Event × Replies)) :
    (run settings script {}).1.Coherent ∧
      ∀ id, Gone (history settings script {}) id → (run settings script {}).1.Spent id := by
  refine run_induction (p := fun past a => ∀ id, Gone past id → a.Spent id)
    (by simp [Gone, dropped]) ?_ script
  intro past a event r ha hpast id hid
  have hstride : Stride settings r a event _ := step_stride ha event
  have hlast (h : Gone [a.moment settings event r] id) : (a.step settings r event).1.Spent id := by
    rcases h with h | ⟨m, hm, hlive, hafter⟩
    · have hid : id ∈ dropped (a.step settings r event).2 := by simpa [moment] using h
      rcases hstride.dropped ha with hnone | ⟨id', hone, hissued, hlive⟩
      · simp [hnone] at hid
      · obtain rfl : id = id' := by simpa [hone] using hid
        exact ⟨hissued, by simp [hlive]⟩
    · obtain rfl := List.mem_singleton.mp hm
      obtain ⟨l, hl, rfl⟩ := Option.map_eq_some_iff.mp hlive
      refine ⟨?_, hafter⟩
      rw [ha.id_eq_issued l hl]
      exact hstride.issued_le
  have hsplit : Gone past id ∨ Gone [a.moment settings event r] id := by
    simp only [Gone, List.flatMap_append, dropped, List.filterMap_append, List.mem_append] at hid ⊢
    grind
  exact hsplit.elim (fun h => (hpast id h).step ha event r) hlast

/-- In every run, stale events can be taken out without a change to what the agent is after each
remaining step, and to what is done but for warnings. The number of a connection that is gone is
never live again, so that all events that carry it are stale. -/
theorem run_transparent (settings : Settings) (script : List (Event × Replies)) :
    (∀ kept, Thinned Moment.IsStale (history settings script {}) kept →
      history settings (kept.map Moment.input) {} = kept ∧
        (run settings (kept.map Moment.input) {}).1 = (run settings script {}).1 ∧
        seen kept = seen (history settings script {})) ∧
    ∀ id, Gone (history settings script {}) id → ∀ later : List (Event × Replies),
      (run settings (script ++ later) {}).1.live.map (·.id) ≠ some id ∧
        ∀ m ∈ history settings later (run settings script {}).1,
          m.event.connection? = some id → m.IsStale := by
  refine ⟨fun kept h => history_thinned h, fun id hid later => ?_⟩
  obtain ⟨hcoherent, hspent⟩ := run_gone script
  obtain ⟨hlast, hlater⟩ := (hspent id hid).history hcoherent later
  rw [run_append]
  exact ⟨hlast.2, fun m hm hevent => ⟨id, hevent, hlater m hm⟩⟩

/-- A report of a link that comes after the end of its call can be taken out. -/
theorem history_without_late_report :
    let script : List (Event × Replies) :=
      [(.command (.connect "bob"), {}), (.command .disconnect, {}), (.link 1 (.state .failed), {})]
    let kept := (history Settings.default script {}).take 2
    (history Settings.default script {}).length = 3 ∧
      history Settings.default (kept.map Moment.input) {} = kept := by
  intro script kept
  have hkept : Thinned Moment.IsStale (history Settings.default script {}) kept :=
    .keep (.keep (.drop ⟨1, rfl, by decide⟩ .nil))
  exact ⟨rfl, ((run_transparent Settings.default script).1 kept hkept).1⟩

end Agent

end PeerCall
