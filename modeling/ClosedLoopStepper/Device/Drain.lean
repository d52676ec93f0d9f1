import ClosedLoopStepper.Device.Turns

/-! The execution loop on its own comes to an end: a packet makes at most one command,
a command at most one internal event, and an internal event nothing. -/
namespace ClosedLoopStepper.Device
open Foundations Scheduler Ipc Encoder StepperMotor Application

/-- How many handlers a task can still cause to run, itself included. -/
def Task.weight : Task → Nat
  | .postProcessing _ => 3
  | .stateMachine eventData => if eventData.type = .processCmdRequest then 2 else 1

def weight : List Task → Nat
  | [] => 0
  | t :: rest => t.weight + weight rest

theorem Task.weight_pos (t : Task) : 0 < t.weight := by
  cases t with
  | postProcessing params => exact Nat.zero_lt_succ 2
  | stateMachine eventData =>
    rw [weight]
    split <;> omega

theorem Task.weight_le (t : Task) : t.weight ≤ 3 := by
  cases t with
  | postProcessing params => exact Nat.le_refl 3
  | stateMachine eventData =>
    rw [weight]
    split <;> omega

theorem weight_cons (t : Task) (rest : List Task) : weight (t :: rest) = t.weight + weight rest := rfl

theorem weight_eq_zero {tasks : List Task} (h : weight tasks = 0) : tasks = [] := by
  cases tasks with
  | nil => rfl
  | cons t rest =>
    have hpos := t.weight_pos
    rw [weight_cons] at h
    omega

theorem weight_append (a b : List Task) : weight (a ++ b) = weight a + weight b := by
  induction a with
  | nil => exact (Nat.zero_add _).symm
  | cons t rest ih =>
    rw [List.cons_append, weight_cons, weight_cons, ih]
    omega

theorem weight_le (tasks : List Task) : weight tasks ≤ 3 * tasks.length := by
  induction tasks with
  | nil => exact Nat.le_refl 0
  | cons t rest ih =>
    have ht := t.weight_le
    rw [weight_cons, List.length_cons]
    omega

theorem weight_sublist {a b : List Task} (h : a.Sublist b) : weight a ≤ weight b := by
  induction h with
  | slnil => exact Nat.le_refl 0
  | cons t _ ih =>
    rw [weight_cons]
    omega
  | cons_cons t _ ih =>
    rw [weight_cons, weight_cons]
    omega

private theorem turn_weight {c next : Controller} {eventData : UserApplicationStateMachineEventData}
    {rest : List Task} (h : Turn c eventData rest next) :
    weight next.tasks < weight (.stateMachine eventData :: rest) := by
  have hpos := (Task.stateMachine eventData).weight_pos
  rw [weight_cons]
  cases h with
  | immediate haccept =>
    rw [weight_append, Task.weight, if_pos haccept.2.1]
    split
    · simp [weight, Task.weight, Task.ofType, UserApplicationStateMachineEventData.ofType]
      omega
    · simp [weight]
  | _ => exact Nat.lt_add_of_pos_left hpos

/-- Every turn on a pending task uses up some of the weight. -/
theorem execute_weight {c : Controller} (hsaved : c.Saved) (h : c.tasks ≠ []) :
    weight c.execute.tasks < weight c.tasks := by
  rcases execute_cases hsaved with ⟨hnil, _⟩ | ⟨params, rest, ht, he⟩ | ⟨eventData, rest, ht, hturn⟩
  · exact absurd hnil h
  · rw [he, runPostProcessing_eq ht, ht, weight_append, weight_cons]
    split
    · simp [weight, Task.weight, Controller.commandTask]
      omega
    · simp [weight, Task.weight]
  · rw [ht]
    exact turn_weight hturn

/-- As many turns as the weight of what is pending leave nothing pending. -/
theorem drained {c : Controller} (hsaved : c.Saved) {turns : Nat} (h : weight c.tasks ≤ turns) :
    (Machine.run Controller.step c (List.replicate turns .execute)).tasks = [] := by
  induction turns generalizing c with
  | zero => exact weight_eq_zero (Nat.le_zero.mp h)
  | succ turns ih =>
    refine ih (Controller.step_saved hsaved .execute) ?_
    change weight c.execute.tasks ≤ turns
    by_cases hnil : c.tasks = []
    · have he : c.execute = c := Controller.execute_idle hnil
      rw [he, hnil]
      exact Nat.zero_le turns
    · have hless := execute_weight hsaved hnil
      omega

def feedBytes (fw : Firmware (SchedulerParams Handler)) (bytes : List UInt8) :
    Firmware (SchedulerParams Handler) :=
  Machine.run Firmware.step fw (bytes.map .receivedByte)

/-- What is needed of a firmware to speak of its controller. -/
structure Sound (fw : Firmware (SchedulerParams Handler)) : Prop where
  coherent : Coherent fw
  regular : Regular fw.view
  saved : fw.controller.Saved

theorem start_sound : Sound start where
  coherent := start_related.1.1
  regular := start_related.1.2
  saved := by
    rw [start_related.2]
    exact Controller.start_saved

theorem run_sound {fw : Firmware (SchedulerParams Handler)} (h : Sound fw) (inputs : List Input) :
    Sound (Machine.run Firmware.step fw inputs) ∧
      (Machine.run Firmware.step fw inputs).controller =
        Machine.run Controller.step fw.controller inputs := by
  obtain ⟨hinv, hview⟩ := arrays_refinement.run_view ⟨h.coherent, h.regular⟩ inputs
  change (Machine.run Firmware.step fw inputs).controller = _ at hview
  refine ⟨⟨hinv.1, hinv.2, ?_⟩, hview⟩
  rw [hview]
  exact Machine.run_invariant inputs h.saved fun _ i hc => Controller.step_saved hc i

theorem feedBytes_sound {fw : Firmware (SchedulerParams Handler)} (h : Sound fw)
    (bytes : List UInt8) :
    Sound (feedBytes fw bytes) ∧ (feedBytes fw bytes).controller =
      Machine.run Controller.step fw.controller (bytes.map .receivedByte) :=
  run_sound h (bytes.map .receivedByte)

/-- The loop tests for pending tasks. -/
theorem current_isSome_iff {fw : Firmware (SchedulerParams Handler)} (h : Sound fw) :
    (EventQueue.current fw.scheduler).isSome = true ↔ fw.controller.tasks ≠ [] := by
  have hcurrent : EventQueue.current fw.scheduler = fw.view.queue.head? := current_refines h.coherent
  have hqueue : fw.view.queue = fw.controller.tasks.map Task.event := h.regular.queue_eq
  rw [hcurrent, hqueue]
  cases fw.controller.tasks <;> simp

/-- On an empty queue the loop does nothing more. -/
theorem idle_stays {fw : Firmware (SchedulerParams Handler)} (h : Sound fw)
    (hnil : fw.controller.tasks = []) (turns : Nat) :
    Machine.run Firmware.step fw (List.replicate turns .execute) = fw := by
  have hnone : EventQueue.current fw.scheduler = none := by
    rw [← Option.not_isSome_iff_eq_none, current_isSome_iff h]
    exact not_not.mpr hnil
  have hfix : fw.step .execute = fw := by
    change fw.executeEvent = fw
    rw [Firmware.executeEvent, hnone]
  exact Machine.run_fixed hfix turns

/-- With fuel for the weight of what is pending, and no interrupt, the execution loop
returns, and it is as many turns as it has fuel. -/
theorem schedulerExecute_eq {fw : Firmware (SchedulerParams Handler)} (h : Sound fw) {fuel : Nat}
    (hfuel : weight fw.controller.tasks ≤ fuel) :
    fw.schedulerExecute fuel =
      some (Machine.run Firmware.step fw (List.replicate fuel .execute)) := by
  induction fuel generalizing fw with
  | zero =>
    have hnil := weight_eq_zero (Nat.le_zero.mp hfuel)
    rw [Firmware.schedulerExecute, if_neg ((current_isSome_iff h).not.mpr (not_not.mpr hnil))]
    rfl
  | succ fuel ih =>
    by_cases hnil : fw.controller.tasks = []
    · rw [idle_stays h hnil, Firmware.schedulerExecute,
        if_neg ((current_isSome_iff h).not.mpr (not_not.mpr hnil))]
    · obtain ⟨hsound, hnext⟩ := run_sound h [.execute]
      change Sound fw.executeEvent at hsound
      change fw.executeEvent.controller = fw.controller.execute at hnext
      have hless := execute_weight h.saved hnil
      rw [← hnext] at hless
      rw [Firmware.schedulerExecute, if_pos ((current_isSome_iff h).mpr hnil), ih hsound (by omega)]
      rfl

/-- Three handler calls for each event of a full queue are always enough. -/
theorem schedulerExecute_drains {fw : Firmware (SchedulerParams Handler)} (h : Sound fw) :
    let last := Machine.run Firmware.step fw (List.replicate (3 * schedulerMaxQueueSize) .execute)
    fw.schedulerExecute (3 * schedulerMaxQueueSize) = some last ∧ last.controller.tasks = [] := by
  have hfuel : weight fw.controller.tasks ≤ 3 * schedulerMaxQueueSize :=
    Nat.le_trans (weight_le _) (Nat.mul_le_mul_left 3 (tasks_length_le h.regular.queue_eq))
  refine ⟨schedulerExecute_eq h hfuel, ?_⟩
  rw [(run_sound h _).2]
  exact drained h.saved hfuel

end ClosedLoopStepper.Device
