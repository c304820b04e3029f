import Mathlib.Data.List.Nodup
import PeerCall.Proofs.Agent.Links
import PeerCall.Proofs.Agent.Session

/-!
# The records that are shown

An agent shows the records of its live connection as they come, once the call stands, and no
others. The polls of a connection are started when the call begins to stand, and never again.
-/

namespace PeerCall

/-- The record that an effect shows. -/
def Effect.record? : Effect → Option Metrics.Record
  | .notify (.record record) => some record
  | _ => none

/-- The records of a connection that an event brings. -/
def Event.recordsOf (id : ConnId) : Event → List Metrics.Record
  | .records other new => if other = id then new else []
  | _ => []

namespace Agent

variable {settings : Settings} {a : Agent} {r : Replies} {event : Event}
  {x : Agent × List Effect} {effects : List Effect} {id : ConnId}

/-- The records that some effects show, in order. -/
def shownBy (effects : List Effect) : List Metrics.Record := effects.filterMap Effect.record?

/-- The records that are shown in some steps, in order. -/
def shown (steps : List Moment) : List Metrics.Record := steps.flatMap fun m => shownBy m.effects

/-- Records are shown in the order of the steps. -/
theorem shown_append (first second : List Moment) :
    shown (first ++ second) = shown first ++ shown second :=
  List.flatMap_append

/-- One step shows the records of its effects. -/
@[simp] theorem shown_singleton (m : Moment) : shown [m] = shownBy m.effects :=
  List.flatMap_singleton _ _

/-! ## One step -/

/-- No stride shows records but the one at new records. -/
theorem Stride.shownBy_eq_nil (hx : Stride settings r a event x)
    (hevent : ∀ id records, event ≠ .records id records) : shownBy x.2 = [] := by
  have hflush (b : Agent) : (finish (b.flush r)).2.filterMap Effect.record? = [] :=
    filterMap_flush (fun _ _ _ => rfl) fun _ => rfl
  have hparting (b : Agent) (failure : Option String) :
      (b.parting failure).filterMap Effect.record? = [] := by
    cases failure <;> cases hp : b.polled <;> cases hl : b.live <;>
      simp [parting, hp, hl, Effect.record?, List.filterMap_cons]
  unfold shownBy
  cases hx with
  | records => exact absurd rfl (hevent _ _)
  | @opened _ _ offer => cases offer <;> rfl
  | _ =>
    simp only [List.filterMap_cons, List.filterMap_append, List.filterMap_nil, List.filterMap_map,
      Function.comp_def, Effect.record?, List.filterMap_none, List.nil_append, hparting, hflush,
      apply_ite (List.filterMap Effect.record?), ite_self, finish_after]

/-- New records of the live connection are shown once the call stands, and nothing else is done. -/
theorem step_records {l : Live} (ha : a.Coherent) (hl : a.live = some l)
    (hphase : a.call.phase = .connected) (records : List Metrics.Record) :
    a.step settings r (.records l.id records) = (a, records.map fun x => .notify (.record x)) := by
  simp [step, ha.isRunning_of_live hl, handle, ifLive, hl, onRecords, hphase]

/-- Records that are not of the live connection, or come before the call stands, are not shown. -/
theorem step_records_hidden {records : List Metrics.Record}
    (h : a.live.map (·.id) = some id → a.call.phase ≠ .connected) :
    shownBy (a.step settings r (.records id records)).2 = [] := by
  unfold step
  split
  · by_cases hlive : a.live.map (·.id) = some id
    · simp [handle, ifLive, hlive, onRecords, h hlive, shownBy]
    · simp [handle, ifLive, hlive, shownBy, Effect.record?]
  · rfl

/-- A step shows the records of the live connection that the event brings if the call stands, and
none otherwise. -/
theorem step_shown (ha : a.Coherent) (event : Event) (r : Replies) :
    shownBy (a.step settings r event).2 =
      if a.call.phase = .connected then (a.live.map fun l => event.recordsOf l.id).getD []
      else [] := by
  cases event with
  | records id records =>
    by_cases hshows : a.live.map (·.id) = some id ∧ a.call.phase = .connected
    · obtain ⟨hlive, hphase⟩ := hshows
      obtain ⟨l, hl, rfl⟩ := Option.map_eq_some_iff.mp hlive
      rw [step_records ha hl hphase]
      simp [hl, hphase, Event.recordsOf, shownBy, List.filterMap_map, Function.comp_def,
        Effect.record?]
    · rw [step_records_hidden fun hlive hphase => hshows ⟨hlive, hphase⟩]
      cases hl : a.live with
      | none => simp
      | some l => grind [Event.recordsOf]
  | _ =>
    rw [(step_stride ha _).shownBy_eq_nil (by simp)]
    cases a.live <;> simp [Event.recordsOf]

/-- Every record that a step shows is one that the live connection has brought while the call
stands. -/
theorem moment_shown (ha : a.Coherent) (event : Event) (r : Replies)
    (hshown : shownBy (a.moment settings event r).effects ≠ []) :
    ∃ l, a.live = some l ∧ a.call.phase = .connected ∧
      event = .records l.id (shownBy (a.moment settings event r).effects) := by
  simp only [moment, step_shown ha] at hshown ⊢
  split at hshown
  · next hphase =>
    rw [if_pos hphase]
    cases hl : a.live with
    | none => simp [hl] at hshown
    | some l =>
      refine ⟨l, rfl, hphase, ?_⟩
      cases event with
      | records id records =>
        by_cases hid : id = l.id
        · simp [Event.recordsOf, hid]
        · simp [hl, Event.recordsOf, hid] at hshown
      | _ => simp [hl, Event.recordsOf] at hshown
  · exact absurd rfl hshown

/-! ## The polls of a connection -/

/-- The connections whose polls are started, in order. -/
def started (effects : List Effect) : List ConnId :=
  (rhythm effects).filterMap fun p => if p.2 then some p.1 else none

/-- Polls are started in the order of the effects. -/
theorem started_append (first second : List Effect) :
    started (first ++ second) = started first ++ started second := by
  simp [started, rhythm_append]

/-- The end of a call starts no polls. -/
theorem Closes.started_eq_nil {polled : Option ConnId} (h : Closes polled id effects) :
    started effects = [] := by
  obtain ⟨earlier, later, rfl, -, htouched, hrhythm⟩ := h.split
  have hlater : rhythm (.close id :: later) = [] := (shut_of_touched htouched).2
  rw [started, rhythm_append, hrhythm, hlater]
  cases polled <;> rfl

/-- Polling goes on at the live connection, once the call stands. -/
theorem Coherent.of_polled (ha : a.Coherent) (h : a.polled = some id) :
    a.call.phase = .connected ∧ a.live.map (·.id) = some id := by
  rw [ha.polled_eq] at h
  split at h
  · next hphase => exact ⟨hphase, h⟩
  · simp at h

/-- The polls of each connection have been started at most once, and those of the live connection
only if its call stands. -/
structure Begun (effects : List Effect) (a : Agent) : Prop where
  nodup : (started effects).Nodup
  le_issued : ∀ id ∈ started effects, id ≤ a.issued
  polled : ∀ l, a.live = some l → l.id ∈ started effects → a.polled = some l.id

/-- No step starts the polls of a connection again. -/
theorem Begun.step (ha : a.Coherent) (h : Begun effects a) (event : Event) (r : Replies) :
    Begun (effects ++ (a.step settings r event).2) (a.step settings r event).1 := by
  have hstride : Stride settings r a event _ := step_stride ha event
  have hissued : a.issued ≤ (a.step settings r event).1.issued := hstride.issued_le
  have hle : ∀ id ∈ started effects, id ≤ (a.step settings r event).1.issued :=
    fun id hid => Nat.le_trans (h.le_issued id hid) hissued
  have hsame (hnone : started (a.step settings r event).2 = []) :
      started (effects ++ (a.step settings r event).2) = started effects := by
    rw [started_append, hnone, List.append_nil]
  cases hstride.tends ha with
  | keeps _ _ hlive hpolled =>
    rcases hpolled with ⟨hnone, hpolled⟩ | ⟨id, hone, hfree, hpolled⟩
    · have hstarted := hsame (by rw [started, hnone]; rfl)
      refine ⟨hstarted ▸ h.nodup, hstarted ▸ hle, fun l' hl' hmem => ?_⟩
      rw [hl', Option.map_some] at hlive
      obtain ⟨l, hl, hid⟩ := Option.map_eq_some_iff.mp hlive.symm
      rw [hstarted, ← hid] at hmem
      rw [hpolled, ← hid]
      exact h.polled l hl hmem
    · -- The polls that are started are those of the live connection.
      obtain ⟨-, hafter⟩ := (step_coherent ha event).of_polled hpolled
      rw [hlive] at hafter
      obtain ⟨l, hl, rfl⟩ := Option.map_eq_some_iff.mp hafter
      have hfirst : l.id ∉ started effects := fun hmem => by
        simp [h.polled l hl hmem] at hfree
      have hstarted : started (effects ++ (a.step settings r event).2) =
          started effects ++ [l.id] := by
        rw [started_append]
        exact congrArg (started effects ++ List.filterMap _ ·) hone
      refine ⟨?_, fun id hid => ?_, fun l' hl' _ => ?_⟩
      · rw [hstarted, ← List.concat_eq_append]
        exact h.nodup.concat hfirst
      · rw [hstarted] at hid
        rcases List.mem_append.mp hid with hold | hnew
        · exact hle id hold
        · rw [List.mem_singleton.mp hnew, ha.id_eq_issued l hl]
          exact hissued
      · rw [hpolled, hstride.id_eq ha hl hl']
  | makes hl _ _ hlive hlast hpolled =>
    have hstarted := hsame (by rw [started, hpolled.1]; rfl)
    refine ⟨hstarted ▸ h.nodup, hstarted ▸ hle, fun l' hl' hmem => ?_⟩
    rw [hl', Option.map_some] at hlive
    rw [hstarted, Option.some.inj hlive] at hmem
    exact absurd (h.le_issued _ hmem) (Nat.not_succ_le_self _)
  | shuts _ _ hcloses hlive | fails _ _ hcloses hlive =>
    have hstarted := hsame hcloses.started_eq_nil
    exact ⟨hstarted ▸ h.nodup, hstarted ▸ hle, by simp [hlive]⟩

/-- Every run starts the polls of each connection at most once. -/
theorem run_begun (script : List (Event × Replies)) :
    Begun (effectsOf (history settings script {})) (run settings script {}).1 := by
  have hnew : Begun (effectsOf []) {} := ⟨List.nodup_nil, by simp [effectsOf, started, rhythm],
    by simp⟩
  refine (run_induction (p := fun past a => Begun (effectsOf past) a) hnew
    (fun past a event r ha h => ?_) script).2
  rw [effectsOf_append]
  exact h.step ha event r

end Agent

end PeerCall
