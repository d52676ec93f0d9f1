import ClosedLoopStepper.Device.Drain
import ClosedLoopStepper.Device.Execution

/-! Whether a command in execution can still be answered. With the motor off, the answer
waits for an internal or a step event; the command wedges when the last one is used up on
a position that has moved, or was refused by a full queue. -/
namespace ClosedLoopStepper.Device
open Foundations Scheduler Ipc Encoder StepperMotor Application

namespace Controller

/-- A command is in execution and nothing is left that could finish it. -/
def Wedged (c : Controller) : Prop :=
  c.state = .execution ∧ c.tasks = [] ∧ c.motorOn = false

instance (c : Controller) : Decidable c.Wedged := inferInstanceAs (Decidable (_ ∧ _))

/-- With the motor off, an event finds the position other than the one requested. -/
def Missed (c : Controller) (eventData : UserApplicationStateMachineEventData) : Prop :=
  c.state = .execution ∧ c.motorOn = false ∧ eventData.type.prompts = true ∧
    c.params.respStatus = .ok ∧ c.params.positionRequested ≠ c.position

instance (c : Controller) (eventData : UserApplicationStateMachineEventData) :
    Decidable (c.Missed eventData) := inferInstanceAs (Decidable (_ ∧ _))

/-- The condition on the state before a turn of the loop: a command that moves nothing
finds room for its internal event or a prompting event pending behind it, and an event
that misses the requested position is not the last prompting one. -/
def TurnFollowedUp (c : Controller) : List Task → Prop
  | .stateMachine eventData :: rest =>
    (Accepts c.userApplication eventData →
      Immediate eventData.processCmdRequestEventData c.position →
      c.tasks.length < schedulerMaxQueueSize ∨ rest.any Task.prompts = true) ∧
    (c.Missed eventData → rest.any Task.prompts = true)
  | _ => True

def FollowedUp (c : Controller) : Input → Prop
  | .execute => c.TurnFollowedUp c.tasks
  | _ => True

instance (c : Controller) : ∀ tasks, Decidable (c.TurnFollowedUp tasks)
  | .stateMachine _ :: _ => inferInstanceAs (Decidable (_ ∧ _))
  | .postProcessing _ :: _ => inferInstanceAs (Decidable True)
  | [] => inferInstanceAs (Decidable True)

instance (c : Controller) : ∀ i, Decidable (c.FollowedUp i)
  | .execute => inferInstanceAs (Decidable (c.TurnFollowedUp c.tasks))
  | .receivedByte _ => inferInstanceAs (Decidable True)
  | .pinTransition .. => inferInstanceAs (Decidable True)

/-- While a command is in execution with the motor off, a prompting event is pending. -/
def Prompted (c : Controller) : Prop :=
  c.state = .execution → c.motorOn = false → c.tasks.any Task.prompts = true

variable {c : Controller}

private theorem any_of_prefix {a b : List Task} (h : a <+: b) (ha : a.any Task.prompts = true) :
    b.any Task.prompts = true := by
  obtain ⟨t, ht, hp⟩ := List.any_eq_true.mp ha
  exact List.any_eq_true.mpr ⟨t, h.subset ht, hp⟩

private theorem Prompted.not_wedged (h : c.Prompted) : ¬ c.Wedged := by
  rintro ⟨hstate, htasks, hmotor⟩
  have hany := h hstate hmotor
  rw [htasks] at hany
  cases hany

private theorem runPostProcessing_prompted {params : IpcReceivedDataPacketPostProcessingParams}
    {rest : List Task} (h : c.Prompted) (ht : c.tasks = .postProcessing params :: rest) :
    (c.runPostProcessing params).Prompted := by
  intro hstate hmotor
  rw [runPostProcessing_eq ht] at hstate hmotor ⊢
  have hany := h hstate hmotor
  rw [ht, List.any_cons, Task.prompts, Bool.false_or] at hany
  exact any_of_prefix (List.prefix_append _ _) hany

/-- A turn of the state machine keeps the answer possible when it is followed up. -/
theorem turn_prompted {eventData : UserApplicationStateMachineEventData} {rest : List Task}
    {next : Controller} (h : c.Prompted) (ht : c.tasks = .stateMachine eventData :: rest)
    (hf : c.FollowedUp .execute) (hturn : Turn c eventData rest next) : next.Prompted := by
  rw [FollowedUp, ht] at hf
  obtain ⟨hroom, hmissed⟩ := hf
  intro hstate hmotor
  cases hturn with
  | calibrate => cases hmotor
  | home => cases hstate
  | finish => cases hstate
  | anticlockwise => cases hmotor
  | clockwise => cases hmotor
  | immediate haccept himmediate =>
    change (rest ++ _).any Task.prompts = true
    rcases hroom haccept himmediate with hlt | hbehind
    · rw [if_pos hlt, List.any_append]
      simp [Task.ofType, Task.prompts, UserApplicationStateMachineEventData.ofType,
        UserApplicationStateMachineEventType.prompts]
    · exact any_of_prefix (List.prefix_append _ _) hbehind
  | ignore _ hfinish _ =>
    cases hprompts : eventData.type.prompts with
    | false =>
      have hany := h hstate hmotor
      rwa [ht, List.any_cons, Task.prompts, hprompts, Bool.false_or] at hany
    | true =>
      -- an event that compares positions and does not finish has missed
      have hne : ¬ (c.params.positionRequested = c.position ∨ c.params.respStatus ≠ .ok) :=
        fun hc => hfinish ⟨hstate, hprompts, hc⟩
      rw [not_or, not_not] at hne
      exact hmissed ⟨hstate, hmotor, hprompts, hne.2, hne.1⟩

private theorem step_prompted (hsaved : c.Saved) (h : c.Prompted) (i : Input)
    (hf : c.FollowedUp i) :
    (c.step i).Prompted := by
  cases i with
  | receivedByte b =>
    exact fun hstate hmotor => any_of_prefix (prefix_offerAll _ _) (h hstate hmotor)
  | pinTransition gpio eventMask levelA levelB =>
    exact fun hstate hmotor => any_of_prefix (prefix_offerAll _ _) (h hstate hmotor)
  | execute =>
    change c.execute.Prompted
    rcases execute_cases hsaved with ⟨_, he⟩ | ⟨params, rest, ht, he⟩ | ⟨eventData, rest, ht, hturn⟩
    · rwa [he]
    · rw [he]
      exact runPostProcessing_prompted h ht
    · exact turn_prompted h ht hf hturn

/-- With the motor off and nothing pending that prompts, the loop alone comes to a wedge. -/
theorem unprompted_wedges (hsaved : c.Saved) (hstate : c.state = .execution)
    (hmotor : c.motorOn = false) (hnone : c.tasks.any Task.prompts = false) :
    (Machine.run step c (List.replicate (weight c.tasks) .execute)).Wedged := by
  have hstill := unprompted_unanswered hsaved hstate hnone (weight c.tasks)
  refine ⟨hstill.state_eq, drained hsaved (Nat.le_refl _), ?_⟩
  rw [motorOn, hstill.motor_eq]
  exact hmotor

/-- The condition is sharp: after a turn that is not followed up, the loop alone comes to
a wedge. -/
theorem not_followed_up_wedges (hsaved : c.Saved) (hrests : c.RestsReady)
    (hf : ¬ c.FollowedUp .execute) :
    ∃ turns, (Machine.run step c (List.replicate turns .execute)).Wedged := by
  have hnext : c.execute.Saved := step_saved hsaved .execute
  suffices h : c.execute.state = .execution ∧ c.execute.motorOn = false ∧
      c.execute.tasks.any Task.prompts = false by
    exact ⟨weight c.execute.tasks + 1, unprompted_wedges hnext h.1 h.2.1 h.2.2⟩
  rcases execute_cases hsaved with ⟨ht, _⟩ | ⟨params, rest, ht, _⟩ | ⟨eventData, rest, ht, hturn⟩
  · rw [FollowedUp, ht] at hf
    exact absurd trivial hf
  · rw [FollowedUp, ht] at hf
    exact absurd trivial hf
  · rw [FollowedUp, ht, TurnFollowedUp, Classical.not_and_iff_not_or_not, Classical.not_imp,
      Classical.not_imp, Classical.not_imp] at hf
    rcases hf with ⟨haccept, himmediate, hroom⟩ | ⟨hmissed, hbehind⟩
    · rw [not_or] at hroom
      obtain ⟨happ, ⟨_, hmotor, _, htasks⟩ | ⟨hmoves, _⟩⟩ := hturn.accepted haccept
      · refine ⟨by rw [state, happ]; rfl, ?_, ?_⟩
        · rw [motorOn, hmotor]
          exact hrests haccept.1
        · rw [htasks, if_neg hroom.1, List.append_nil]
          exact Bool.eq_false_iff.mpr hroom.2
      · exact absurd himmediate hmoves
    · obtain ⟨hstate, hmotor, _, hstatus, hposition⟩ := hmissed
      obtain ⟨htasks, ⟨hstill, _⟩ | ⟨hfinish, _⟩⟩ := turn_executing hstate hturn
      · refine ⟨hstill.state_eq, ?_, ?_⟩
        · rw [motorOn, hstill.motor_eq]
          exact hmotor
        · rw [htasks]
          exact Bool.eq_false_iff.mpr hbehind
      · rcases hfinish.2.2 with heq | hne
        · exact absurd heq hposition
        · exact absurd hstatus hne

end Controller

/-- In every run of the firmware whose turns are all followed up, no command wedges. -/
theorem command_never_wedges (inputs : List Input)
    (h : Machine.Meets Firmware.step (fun fw i => fw.controller.FollowedUp i) start inputs) :
    Machine.Always Firmware.step (fun fw => ¬ fw.controller.Wedged) start inputs := by
  rw [meets_controller] at h
  rw [always_controller (P := fun c => ¬ c.Wedged)]
  have hstart : Controller.start.Saved ∧ Controller.start.Prompted :=
    ⟨rfl, fun hstate => by cases hstate⟩
  exact h.always (J := fun c => c.Saved ∧ c.Prompted) hstart
    (fun c i hc hf => ⟨Controller.step_saved hc.1 i, Controller.step_prompted hc.1 hc.2 i hf⟩)
    fun c hc => hc.2.not_wedged

def edgeA : Input := .pinTransition encoderDrvPinAAnticlockwise gpioIrqEdgeRise true false

def pulseZ : Input := .pinTransition encoderDrvPinZHome gpioIrqEdgeRise false false

def commanded : List Input :=
  [.execute, pulseZ, .execute, edgeA, edgeA, .execute, .execute] ++
    [0xA5, 0x5A, 3, 0, 2, 0, 2].map .receivedByte ++ [.execute, .execute]

theorem command_never_wedges_answered :
    Machine.Always Firmware.step (fun fw => ¬ fw.controller.Wedged) start
      (commanded ++ [.execute]) :=
  command_never_wedges _ (by decide)

/-- The shaft is turned on by hand before the internal event runs. -/
theorem turned_by_hand_wedges :
    (Machine.run Firmware.step start (commanded ++ [edgeA, .execute, .execute])).controller.Wedged := by
  decide

end ClosedLoopStepper.Device
