import Mathlib.Data.List.Induction
import PeerCall.Proofs.Agent.Preservation

/-!
# The history of a run

A run is looked back on as the list of its moments. What holds of the new agent without a past,
and is kept by every step of a coherent agent, holds after every run.
-/

namespace PeerCall

variable {settings : Settings}

namespace Agent

/-- One step of a run. -/
structure Moment where
  before : Agent
  event : Event
  /-- What the surroundings answered. -/
  replies : Replies
  /-- What was done. -/
  effects : List Effect
  after : Agent

/-- The step that an agent takes at an event. -/
def moment (settings : Settings) (a : Agent) (event : Event) (r : Replies) : Moment :=
  ⟨a, event, r, (a.step settings r event).2, (a.step settings r event).1⟩

/-- The steps of a run, oldest first. -/
def history (settings : Settings) : List (Event × Replies) → Agent → List Moment
  | [], _ => []
  | (event, r) :: rest, a =>
    a.moment settings event r :: history settings rest (a.step settings r event).1

/-- A run goes on where its first part has ended. -/
theorem run_append (first second : List (Event × Replies)) (a : Agent) :
    run settings (first ++ second) a =
      ((run settings second (run settings first a).1).1,
        (run settings first a).2 ++ (run settings second (run settings first a).1).2) := by
  induction first generalizing a with
  | nil => simp [run]
  | cons input rest ih => simp [run, ih]

/-- A run goes on where the one before it leaves the agent. -/
theorem history_append (first second : List (Event × Replies)) (a : Agent) :
    history settings (first ++ second) a =
      history settings first a ++ history settings second (run settings first a).1 := by
  induction first generalizing a with
  | nil => simp [run, history]
  | cons input rest ih => simp [run, history, ih]

/-- The effects of a run are those of its moments. -/
theorem run_effects (script : List (Event × Replies)) (a : Agent) :
    (run settings script a).2 = (history settings script a).map (·.effects) := by
  induction script generalizing a with
  | nil => rfl
  | cons input rest ih => simp [run, history, ih, moment]

/-- What holds without a past and is kept by every step of a coherent agent holds after every
run. -/
theorem run_induction {p : List Moment → Agent → Prop} (hnew : p [] {})
    (hstep : ∀ past a event r, a.Coherent → p past a →
      p (past ++ [a.moment settings event r]) (a.step settings r event).1)
    (script : List (Event × Replies)) :
    (run settings script {}).1.Coherent ∧
      p (history settings script {}) (run settings script {}).1 := by
  induction script using List.reverseRecOn with
  | nil => exact ⟨coherent_new, hnew⟩
  | append_singleton script input ih =>
    obtain ⟨hcoherent, hpast⟩ := ih
    rw [run_append, history_append]
    exact ⟨step_coherent hcoherent input.1, hstep _ _ input.1 input.2 hcoherent hpast⟩

/-- Every run leaves a coherent agent. -/
theorem coherent_run (script : List (Event × Replies)) :
    (run settings script {}).1.Coherent :=
  (run_induction (p := fun _ _ => True) trivial (fun _ _ _ _ _ => id) script).1

/-- A run that goes on with one more event. -/
theorem run_concat (script : List (Event × Replies)) (event : Event) (r : Replies) (a : Agent) :
    (run settings (script ++ [(event, r)]) a).1 =
      ((run settings script a).1.step settings r event).1 := by
  rw [run_append]
  rfl

/-- The last step of a run comes last. -/
theorem history_concat (script : List (Event × Replies)) (event : Event) (r : Replies)
    (a : Agent) : history settings (script ++ [(event, r)]) a =
      history settings script a ++ [(run settings script a).1.moment settings event r] := by
  rw [history_append]
  rfl

/-- A moment of a run is the step that the agent takes after the part of the run before it. -/
theorem history_eq_append {script : List (Event × Replies)} {a : Agent} {m : Moment}
    {earlier later : List Moment} (h : history settings script a = earlier ++ m :: later) :
    ∃ first event r rest, script = first ++ (event, r) :: rest ∧
      earlier = history settings first a ∧
      m = (run settings first a).1.moment settings event r := by
  induction earlier generalizing script a with
  | nil =>
    cases script with
    | nil => simp [history] at h
    | cons input rest =>
      obtain ⟨rfl, -⟩ := List.cons.inj h
      exact ⟨[], input.1, input.2, rest, rfl, rfl, rfl⟩
  | cons first earlier ih =>
    cases script with
    | nil => simp [history] at h
    | cons input script =>
      obtain ⟨rfl, hrest⟩ := List.cons.inj h
      obtain ⟨first, event, r, rest, rfl, rfl, rfl⟩ := ih hrest
      exact ⟨input :: first, event, r, rest, rfl, rfl, rfl⟩

/-- Every moment of a run is a step of a coherent agent. -/
theorem exists_moment (script : List (Event × Replies)) :
    ∀ m ∈ history settings script {}, ∃ (a : Agent) (event : Event) (r : Replies),
      a.Coherent ∧ m = a.moment settings event r := by
  refine (run_induction (p := fun past _ => ∀ m ∈ past, ∃ (a : Agent) (event : Event)
    (r : Replies), a.Coherent ∧ m = a.moment settings event r) (by simp)
    (fun past a event r ha hpast m hm => ?_) script).2
  rcases List.mem_append.mp hm with hm | hm
  · exact hpast m hm
  · exact ⟨a, event, r, ha, List.mem_singleton.mp hm⟩

end Agent

end PeerCall
