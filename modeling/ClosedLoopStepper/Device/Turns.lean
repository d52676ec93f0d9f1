import ClosedLoopStepper.Device.Controller

/-! What a turn of the loop does to the controller, outcome by outcome, with the facts
that each outcome is taken on. Every later proof about runs goes through these. -/
namespace ClosedLoopStepper.Device
open Foundations Foundations.Framing Common Scheduler Ipc Encoder StepperMotor Application

namespace Controller

def state (c : Controller) : UserApplicationStateMachineState :=
  c.userApplication.userApplicationStateMachineState

def params (c : Controller) : UserApplicationStateMachineParams :=
  c.userApplication.userApplicationStateMachineParams

def position (c : Controller) : Nat := encoderDrvGetEncoderPosition c.encoder

def motorOn (c : Controller) : Bool := c.stepperMotor.pwmEnabled

/-- Only one type of command is ever saved. -/
def Saved (c : Controller) : Prop :=
  c.params.savedCmdType = userApplicationMessagesCmdTypeSetStepperMotorAngle

def RestsReady (c : Controller) : Prop := c.state = .ready → c.motorOn = false

end Controller

def responseFrame (params : UserApplicationStateMachineParams) : List UInt8 :=
  ipcFormat.frame (response params).toBytes

theorem response_admits (params : UserApplicationStateMachineParams) :
    ipcFormat.Admits (response params).toBytes :=
  ⟨Nat.zero_lt_succ 3, show 4 ≤ 251 by decide⟩

private theorem visible_response (params : UserApplicationStateMachineParams) :
    visible (.ipcSendDataPacket (response params).toBytes) =
      some (.transmitted (responseFrame params)) := by
  rw [visible, ipcSendDataPacket_frame (response_admits params), responseFrame]

def commandStatus (cmd : UserApplicationMessagesCmdSetStepperMotorAngle) :
    UserApplicationMessagesRespStatus :=
  if encoderDrvIsEncoderPositionValid (requestedPosition cmd) = false then .invalidAngleRequested
  else .ok

def executing (cmd : UserApplicationMessagesCmdSetStepperMotorAngle) : UserApplication :=
  ⟨.execution, ⟨userApplicationMessagesCmdTypeSetStepperMotorAngle, commandStatus cmd,
    requestedPosition cmd⟩⟩

section Turn
variable (c : Controller) (eventData : UserApplicationStateMachineEventData) (rest : List Task)

/-- The outcomes of a turn with a state machine event; the rest of the tasks stays. -/
inductive Turn : Controller → Prop
  | calibrate (hstate : c.state = .calibration) (htype : eventData.type = .internal) :
      Turn { c with
        tasks := rest
        stepperMotor := ⟨.clockwise, true⟩
        log := c.log ++ [.drive .clockwise] }
  | home (hstate : c.state = .calibration) (htype : eventData.type = .homeActivity) :
      Turn { c with
        tasks := rest
        userApplication := ⟨.ready, c.params⟩
        stepperMotor := ⟨c.stepperMotor.dirPin, false⟩
        log := c.log ++ [.drive .stop] }
  | immediate (haccept : Accepts c.userApplication eventData)
      (himmediate : Immediate eventData.processCmdRequestEventData c.position) :
      Turn { c with
        tasks := rest ++
          if c.tasks.length < schedulerMaxQueueSize then [.ofType .internal] else []
        userApplication := executing eventData.processCmdRequestEventData }
  | anticlockwise (haccept : Accepts c.userApplication eventData)
      (hmoves : ¬ Immediate eventData.processCmdRequestEventData c.position)
      (hgt : c.position < requestedPosition eventData.processCmdRequestEventData) :
      Turn { c with
        tasks := rest
        userApplication := executing eventData.processCmdRequestEventData
        stepperMotor := ⟨.anticlockwise, true⟩
        log := c.log ++ [.drive .anticlockwise] }
  | clockwise (haccept : Accepts c.userApplication eventData)
      (hmoves : ¬ Immediate eventData.processCmdRequestEventData c.position)
      (hlt : requestedPosition eventData.processCmdRequestEventData < c.position) :
      Turn { c with
        tasks := rest
        userApplication := executing eventData.processCmdRequestEventData
        stepperMotor := ⟨.clockwise, true⟩
        log := c.log ++ [.drive .clockwise] }
  | finish (hfinish : Finishes c.userApplication c.position eventData) :
      Turn { c with
        tasks := rest
        userApplication := ⟨.ready, c.params⟩
        stepperMotor := ⟨c.stepperMotor.dirPin, false⟩
        log := c.log ++ [.drive .stop, .transmitted (responseFrame c.params)] }
  | ignore (haccept : ¬ Accepts c.userApplication eventData)
      (hfinish : ¬ Finishes c.userApplication c.position eventData)
      (hcalibration : c.state = .calibration →
        eventData.type = .processCmdRequest ∨ eventData.type = .stepActivity) :
      Turn { c with tasks := rest }

variable {c eventData rest}

private theorem offerAll_tail {t : Task} (h : c.tasks = t :: rest) (added : Task) :
    (c.offerAll [added]).tail =
      rest ++ if c.tasks.length < schedulerMaxQueueSize then [added] else [] := by
  rw [Controller.offerAll, List.foldl_cons, List.foldl_nil, offer]
  split
  · rw [h]
    rfl
  · rw [h, List.append_nil]
    rfl

/-- The one event that the state machine puts is the internal one. -/
theorem queued_cases (hsaved : c.Saved) (eventData : UserApplicationStateMachineEventData) :
    let queued := (userApplicationStateMachineEventHandler c.userApplication c.position
      eventData).2.filterMap queuedTask
    queued = [] ∨ queued = [.ofType .internal] := by
  have htransition := handler_transition c.position eventData fun _ => hsaved
  generalize userApplicationStateMachineEventHandler c.userApplication c.position eventData = next
    at htransition
  cases htransition with
  | accept haccept =>
    rcases setStepperMotorAngle_actions eventData.processCmdRequestEventData c.position with
      ⟨_, he⟩ | ⟨_, _, he⟩ | ⟨_, _, he⟩
    · rw [he]
      exact .inr rfl
    · rw [he]
      exact .inl rfl
    · rw [he]
      exact .inl rfl
  | _ => exact .inl rfl

/-- What a state machine turn leaves pending. -/
theorem runStateMachine_tasks (hsaved : c.Saved) (ht : c.tasks = .stateMachine eventData :: rest) :
    (c.runStateMachine eventData).tasks =
      rest ++ if c.tasks.length < schedulerMaxQueueSize then
        (userApplicationStateMachineEventHandler c.userApplication c.position
          eventData).2.filterMap queuedTask
      else [] := by
  have hrun : (c.runStateMachine eventData).tasks =
      (c.offerAll ((userApplicationStateMachineEventHandler c.userApplication c.position
        eventData).2.filterMap queuedTask)).tail := rfl
  rw [hrun]
  rcases queued_cases hsaved eventData with hq | hq
  · rw [hq, Controller.offerAll, List.foldl_nil, ht]
    simp
  · rw [hq]
    exact offerAll_tail ht _

private theorem setStepperMotorAngle_executing
    {cmd : UserApplicationMessagesCmdSetStepperMotorAngle}
    (h : cmd.cmdType = userApplicationMessagesCmdTypeSetStepperMotorAngle) :
    (setStepperMotorAngle cmd c.position).1 = executing cmd := by
  rw [setStepperMotorAngle_app, h]
  rfl

theorem runStateMachine_turn (hsaved : c.Saved) (ht : c.tasks = .stateMachine eventData :: rest) :
    Turn c eventData rest (c.runStateMachine eventData) := by
  have htransition := handler_transition c.position eventData fun _ => hsaved
  have hrun : c.runStateMachine eventData =
      let next := userApplicationStateMachineEventHandler c.userApplication c.position eventData
      { c with
        userApplication := next.1
        stepperMotor := (next.2.filterMap driveCall).foldl StepperMotorDrv.drive c.stepperMotor
        log := c.log ++ next.2.filterMap visible
        tasks := (c.offerAll (next.2.filterMap queuedTask)).tail } := rfl
  have htail : (c.offerAll []).tail = rest := by
    rw [Controller.offerAll, List.foldl_nil, ht]
    rfl
  rw [hrun]
  generalize userApplicationStateMachineEventHandler c.userApplication c.position eventData = next
    at htransition
  subst htail
  cases htransition with
  | calibrate hstate htype => exact .calibrate hstate htype
  | home hstate htype => exact .home hstate htype
  | finish hfinish =>
    simp only [List.filterMap_cons, List.filterMap_nil, visible_response]
    exact .finish hfinish
  | ignore haccept hfinish hcalibration => simpa using .ignore haccept hfinish hcalibration
  | accept haccept =>
    dsimp only
    rw [setStepperMotorAngle_executing haccept.2.2]
    rcases setStepperMotorAngle_actions eventData.processCmdRequestEventData c.position with
      ⟨himmediate, he⟩ | ⟨hmoves, hgt, he⟩ | ⟨hmoves, hlt, he⟩
    · have htasks := offerAll_tail ht (.ofType .internal)
      have hturn : Turn c eventData (c.offerAll []).tail _ := .immediate haccept himmediate
      rw [← htasks] at hturn
      simpa [he, List.filterMap_cons, queuedTask, driveCall, visible, Task.ofType] using hturn
    · rw [he]
      exact .anticlockwise haccept hmoves hgt
    · rw [he]
      exact .clockwise haccept hmoves hlt

theorem runPostProcessing_eq {params : IpcReceivedDataPacketPostProcessingParams}
    (ht : c.tasks = .postProcessing params :: rest) :
    let status := (ipcReceivedDataPacketPostProcessingHandler c.ipc params).receptionStatus
    c.runPostProcessing params =
      { c with
        log := c.log ++ [.received status (c.ipc.received params.receivedDataSize.toNat)]
        tasks := rest ++
          if status = .ok ∧ c.tasks.length < schedulerMaxQueueSize then [c.commandTask] else [] } := by
  intro status
  rw [Controller.runPostProcessing]
  congr 1
  cases hstatus : (ipcReceivedDataPacketPostProcessingHandler c.ipc params).receptionStatus with
  | ok => simpa [status, hstatus] using offerAll_tail ht c.commandTask
  | packetCorrupted => simp [status, hstatus, Controller.offerAll, ht]

theorem execute_turn (hsaved : c.Saved) (ht : c.tasks = .stateMachine eventData :: rest) :
    Turn c eventData rest c.execute := by
  rw [Controller.execute_stateMachine ht]
  exact runStateMachine_turn hsaved ht

/-- The three things a turn can be. -/
theorem execute_cases (hsaved : c.Saved) :
    (c.tasks = [] ∧ c.execute = c) ∨
    (∃ params rest, c.tasks = .postProcessing params :: rest ∧
      c.execute = c.runPostProcessing params) ∨
    (∃ eventData rest, c.tasks = .stateMachine eventData :: rest ∧
      Turn c eventData rest c.execute) := by
  cases ht : c.tasks with
  | nil => exact .inl ⟨rfl, Controller.execute_idle ht⟩
  | cons t rest =>
    cases t with
    | postProcessing params =>
      exact .inr (.inl ⟨params, rest, rfl, Controller.execute_postProcessing ht⟩)
    | stateMachine eventData => exact .inr (.inr ⟨eventData, rest, rfl, execute_turn hsaved ht⟩)

/-- The one task that a turn puts is that of the internal event. -/
theorem Turn.tasks {next : Controller} (hturn : Turn c eventData rest next) :
    next.tasks = rest ∨ next.tasks = rest ++ [.ofType .internal] := by
  cases hturn with
  | immediate =>
    dsimp only
    split
    · exact .inr rfl
    · exact .inl (List.append_nil _)
  | _ => exact .inl rfl

theorem Turn.saved {next : Controller} (hsaved : c.Saved) (h : Turn c eventData rest next) :
    next.Saved := by
  cases h <;> first | exact hsaved | rfl

theorem Turn.restsReady {next : Controller} (h : c.RestsReady) (hturn : Turn c eventData rest next) :
    next.RestsReady := by
  intro hstate
  cases hturn with
  | calibrate hcalibration => cases hcalibration.symm.trans hstate
  | home => rfl
  | finish => rfl
  | immediate => cases hstate
  | anticlockwise => cases hstate
  | clockwise => cases hstate
  | ignore => exact h hstate

/-- An accepted command is in execution; either the internal event is put for it, or the
motor is started. -/
theorem Turn.accepted {next : Controller} (haccept : Accepts c.userApplication eventData)
    (hturn : Turn c eventData rest next) :
    next.userApplication = executing eventData.processCmdRequestEventData ∧
      ((Immediate eventData.processCmdRequestEventData c.position ∧
        next.stepperMotor = c.stepperMotor ∧ next.log = c.log ∧
        next.tasks = rest ++
          if c.tasks.length < schedulerMaxQueueSize then [.ofType .internal] else []) ∨
      (¬ Immediate eventData.processCmdRequestEventData c.position ∧
        next.motorOn = true ∧ next.tasks = rest ∧
        ∃ drive ≠ Drive.stop, next.log = c.log ++ [.drive drive])) := by
  cases hturn with
  | immediate _ himmediate => exact ⟨rfl, .inl ⟨himmediate, rfl, rfl, rfl⟩⟩
  | anticlockwise _ hmoves => exact ⟨rfl, .inr ⟨hmoves, rfl, rfl, .anticlockwise, nofun, rfl⟩⟩
  | clockwise _ hmoves => exact ⟨rfl, .inr ⟨hmoves, rfl, rfl, .clockwise, nofun, rfl⟩⟩
  | calibrate hstate => cases haccept.1.symm.trans hstate
  | home hstate => cases haccept.1.symm.trans hstate
  | finish hfinish => cases haccept.1.symm.trans hfinish.1
  | ignore hignore => exact absurd haccept hignore

end Turn

namespace Controller
variable {c : Controller}

/-- What depends on the application and the motor alone, and is kept by the turns, is kept by
every step. -/
theorem step_keeps {P : Controller → Prop} (hsaved : c.Saved)
    (hframe : ∀ tasks ipc encoder log, P { c with tasks, ipc, encoder, log })
    (hturn : ∀ {eventData rest next}, Turn c eventData rest next → P next) (i : Input) :
    P (c.step i) := by
  cases i with
  | receivedByte b => exact hframe _ _ _ _
  | pinTransition gpio eventMask levelA levelB => exact hframe _ _ _ _
  | execute =>
    change P c.execute
    rcases execute_cases hsaved with ⟨_, he⟩ | ⟨params, rest, _, he⟩ | ⟨eventData, rest, _, hturned⟩
    · rw [he]
      exact hframe _ _ _ _
    · rw [he]
      exact hframe _ _ _ _
    · exact hturn hturned

theorem step_saved (h : c.Saved) (i : Input) : (c.step i).Saved :=
  step_keeps h (fun _ _ _ _ => h) (fun hturn => hturn.saved h) i

theorem start_saved : start.Saved := rfl

theorem step_restsReady (hsaved : c.Saved) (h : c.RestsReady) (i : Input) :
    (c.step i).RestsReady :=
  step_keeps hsaved (fun _ _ _ _ => h) (fun hturn => hturn.restsReady h) i

theorem start_restsReady : start.RestsReady := nofun

/-- A turn touches neither the receiver nor the encoder. -/
theorem execute_frame : c.execute.ipc = c.ipc ∧ c.execute.encoder = c.encoder := by
  rw [execute]
  split <;> exact ⟨rfl, rfl⟩

end Controller
end ClosedLoopStepper.Device
