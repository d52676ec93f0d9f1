import ClosedLoopStepper.Application.UserApplication
import ClosedLoopStepper.Foundations.Machine

/-! The protocol that the application keeps with the commander, over every sequence of
its events. Which events the queue really brings, and when, is left open. -/
namespace ClosedLoopStepper.Application
open Foundations Encoder StepperMotor

/-- What passes between the commander and the application: a command that the ready state
takes, or a sent packet with the encoder position that its handler has read. -/
inductive Message
  | command (cmd : UserApplicationMessagesCmdSetStepperMotorAngle)
  | response (dataPacket : List UInt8) (currentEncoderPosition : Nat)
  deriving DecidableEq, Repr

structure Session where
  userApplication : UserApplication
  stepperMotor : StepperMotorDrv
  messages : List Message

structure Prompt where
  eventData : UserApplicationStateMachineEventData
  currentEncoderPosition : Nat
  deriving DecidableEq, Repr

namespace Session

def state (s : Session) : UserApplicationStateMachineState :=
  s.userApplication.userApplicationStateMachineState

/-- A call of the handler. What it puts into the queue is left to the order of events. -/
def perform (currentEncoderPosition : Nat) (s : Session) : Action → Session
  | .drive drive => { s with stepperMotor := s.stepperMotor.drive drive }
  | .schedulerEventPut _ => s
  | .ipcSendDataPacket dataPacket =>
    { s with messages := s.messages ++ [.response dataPacket currentEncoderPosition] }

def step (s : Session) (prompt : Prompt) : Session :=
  let next := userApplicationStateMachineEventHandler s.userApplication
    prompt.currentEncoderPosition prompt.eventData
  next.2.foldl (perform prompt.currentEncoderPosition)
    { s with
      userApplication := next.1
      messages := s.messages ++
        if Accepts s.userApplication prompt.eventData then
          [.command prompt.eventData.processCmdRequestEventData]
        else [] }

end Session

def commandParams (cmd : UserApplicationMessagesCmdSetStepperMotorAngle) :
    UserApplicationStateMachineParams where
  savedCmdType := cmd.cmdType
  respStatus :=
    if encoderDrvIsEncoderPositionValid (requestedPosition cmd) = false then .invalidAngleRequested
    else .ok
  positionRequested := requestedPosition cmd

/-- A command that has been answered, and the position that was read then. -/
structure Exchange where
  cmd : UserApplicationMessagesCmdSetStepperMotorAngle
  currentEncoderPosition : Nat
  deriving DecidableEq, Repr

namespace Exchange

def messages (e : Exchange) : List Message :=
  [.command e.cmd, .response (response (commandParams e.cmd)).toBytes e.currentEncoderPosition]

def Reached (e : Exchange) : Prop :=
  (commandParams e.cmd).respStatus = .ok → e.currentEncoderPosition = requestedPosition e.cmd

end Exchange

/-- The messages of a session: exchanges, the last one possibly without its response. -/
def Alternates (messages : List Message) : Prop :=
  ∃ exchanges : List Exchange, (∀ e ∈ exchanges, e.Reached) ∧
    (messages = exchanges.flatMap Exchange.messages ∨
      ∃ cmd, messages = exchanges.flatMap Exchange.messages ++ [.command cmd])

/-- Where a session is, state by state. -/
inductive Phase (s : Session) : Prop
  | calibration (hstate : s.state = .calibration) (hmessages : s.messages = [])
  | ready (exchanges : List Exchange) (hreached : ∀ e ∈ exchanges, e.Reached)
      (hstate : s.state = .ready) (hoff : s.stepperMotor.pwmEnabled = false)
      (hmessages : s.messages = exchanges.flatMap Exchange.messages)
  | execution (exchanges : List Exchange) (hreached : ∀ e ∈ exchanges, e.Reached)
      (cmd : UserApplicationMessagesCmdSetStepperMotorAngle)
      (htype : cmd.cmdType = userApplicationMessagesCmdTypeSetStepperMotorAngle)
      (happ : s.userApplication = ⟨.execution, commandParams cmd⟩)
      (hmotor : s.stepperMotor.pwmEnabled = true → (commandParams cmd).respStatus = .ok)
      (hmessages : s.messages = exchanges.flatMap Exchange.messages ++ [.command cmd])

private theorem setStepperMotorAngle_params (cmd : UserApplicationMessagesCmdSetStepperMotorAngle)
    (currentEncoderPosition : Nat) :
    (setStepperMotorAngle cmd currentEncoderPosition).1 = ⟨.execution, commandParams cmd⟩ :=
  setStepperMotorAngle_app cmd currentEncoderPosition

section Step
variable {s : Session}

theorem Phase.saved (h : Phase s) (hstate : s.state = .execution) :
    s.userApplication.userApplicationStateMachineParams.savedCmdType =
      userApplicationMessagesCmdTypeSetStepperMotorAngle := by
  cases h with
  | calibration hcalibration => cases hcalibration.symm.trans hstate
  | ready _ _ hready => cases hready.symm.trans hstate
  | execution _ _ cmd htype happ =>
    rw [happ]
    exact htype

/-- A command is taken between exchanges, and starts the motor only with status OK. -/
theorem Phase.accept (h : Phase s) {prompt : Prompt}
    (haccept : Accepts s.userApplication prompt.eventData) :
    let cmd := prompt.eventData.processCmdRequestEventData
    let next := setStepperMotorAngle cmd prompt.currentEncoderPosition
    Phase (next.2.foldl (Session.perform prompt.currentEncoderPosition)
      { s with
        userApplication := next.1
        messages := s.messages ++ [.command cmd] }) := by
  intro cmd next
  have happ : next.1 = ⟨.execution, commandParams cmd⟩ := setStepperMotorAngle_params cmd _
  have hvalid (hmoves : ¬ Immediate cmd prompt.currentEncoderPosition) :
      (commandParams cmd).respStatus = .ok := if_neg fun hinvalid => hmoves (.inl hinvalid)
  cases h with
  | calibration hstate => cases haccept.1.symm.trans hstate
  | execution _ _ _ _ hexecution =>
    rw [hexecution] at haccept
    cases haccept.1
  | ready exchanges hreached _ hoff hmessages =>
    rw [hmessages]
    rcases setStepperMotorAngle_actions cmd prompt.currentEncoderPosition with
      ⟨_, he⟩ | ⟨hmoves, _, he⟩ | ⟨hmoves, _, he⟩
    · rw [he]
      refine .execution exchanges hreached cmd haccept.2.2 happ (fun hon => ?_) rfl
      cases hoff.symm.trans hon
    · rw [he]
      exact .execution exchanges hreached cmd haccept.2.2 happ (fun _ => hvalid hmoves) rfl
    · rw [he]
      exact .execution exchanges hreached cmd haccept.2.2 happ (fun _ => hvalid hmoves) rfl

/-- The response closes the exchange of the command in execution. -/
theorem Phase.finish (h : Phase s) {prompt : Prompt}
    (hfinish : Finishes s.userApplication prompt.currentEncoderPosition prompt.eventData) :
    Phase
      { userApplication := { s.userApplication with userApplicationStateMachineState := .ready }
        stepperMotor := s.stepperMotor.drive .stop
        messages := s.messages ++
          [.response (response s.userApplication.userApplicationStateMachineParams).toBytes
            prompt.currentEncoderPosition] } := by
  cases h with
  | calibration hstate => cases hfinish.1.symm.trans hstate
  | ready _ _ hstate => cases hfinish.1.symm.trans hstate
  | execution exchanges hreached cmd _ happ _ hmessages =>
    have hlast : Exchange.Reached ⟨cmd, prompt.currentEncoderPosition⟩ := by
      intro hok
      have hends := hfinish.2.2
      rw [happ] at hends
      exact (hends.resolve_right fun hrefused => hrefused hok).symm
    refine .ready (exchanges ++ [⟨cmd, prompt.currentEncoderPosition⟩]) ?_ rfl rfl ?_
    · exact List.forall_mem_append.mpr ⟨hreached, by simpa using hlast⟩
    · rw [hmessages, happ, List.append_assoc, List.flatMap_append, List.flatMap_singleton]
      rfl

/-- Every event, at any position, leaves the session in one of its phases. -/
theorem step_phase (h : Phase s) (prompt : Prompt) : Phase (s.step prompt) := by
  have htransition := handler_transition prompt.currentEncoderPosition prompt.eventData h.saved
  rw [Session.step]
  by_cases haccept : Accepts s.userApplication prompt.eventData
  · rw [if_pos haccept]
    have haccepted := h.accept haccept
    generalize userApplicationStateMachineEventHandler s.userApplication
      prompt.currentEncoderPosition prompt.eventData = next at htransition
    cases htransition with
    | accept _ => exact haccepted
    | calibrate hstate => cases haccept.1.symm.trans hstate
    | home hstate => cases haccept.1.symm.trans hstate
    | finish hfinish => cases haccept.1.symm.trans hfinish.1
    | ignore hnot => exact absurd haccept hnot
  · rw [if_neg haccept, List.append_nil]
    generalize userApplicationStateMachineEventHandler s.userApplication
      prompt.currentEncoderPosition prompt.eventData = next at htransition
    cases htransition with
    | accept hyes => exact absurd hyes haccept
    | finish hfinish => exact h.finish hfinish
    | ignore => exact h
    | calibrate hstate =>
      cases h with
      | calibration _ hmessages => exact .calibration hstate hmessages
      | ready _ _ hready => cases hready.symm.trans hstate
      | execution _ _ _ _ happ =>
        rw [happ] at hstate
        cases hstate
    | home hstate =>
      cases h with
      | calibration _ hmessages => exact .ready [] (List.forall_mem_nil _) rfl rfl hmessages
      | ready _ _ hready => cases hready.symm.trans hstate
      | execution _ _ _ _ happ =>
        rw [happ] at hstate
        cases hstate

private theorem step_app (s : Session) (prompt : Prompt) :
    (s.step prompt).userApplication = (userApplicationStateMachineEventHandler s.userApplication
      prompt.currentEncoderPosition prompt.eventData).1 := by
  have hkeep (actions : List Action) (s : Session) :
      (actions.foldl (Session.perform prompt.currentEncoderPosition) s).userApplication =
        s.userApplication := by
    induction actions generalizing s with
    | nil => rfl
    | cons action rest ih =>
      rw [List.foldl_cons, ih]
      cases action <;> rfl
  exact hkeep _ _

private theorem step_calibrated (h : Phase s) (hstate : s.state ≠ .calibration) (prompt : Prompt) :
    (s.step prompt).state ≠ .calibration := by
  have htransition := handler_transition prompt.currentEncoderPosition prompt.eventData h.saved
  rw [Session.state, step_app]
  generalize userApplicationStateMachineEventHandler s.userApplication
    prompt.currentEncoderPosition prompt.eventData = next at htransition
  cases htransition with
  | calibrate => exact hstate
  | ignore => exact hstate
  | home => exact fun heq => by cases heq
  | finish => exact fun heq => by cases heq
  | accept =>
    rw [setStepperMotorAngle_params]
    exact fun heq => by cases heq

private theorem step_calibration (h : Phase s) (hstate : s.state = .calibration) {prompt : Prompt}
    (hhome : prompt.eventData.type ≠ .homeActivity) : (s.step prompt).state = .calibration := by
  have htransition := handler_transition prompt.currentEncoderPosition prompt.eventData h.saved
  rw [Session.state, step_app]
  generalize userApplicationStateMachineEventHandler s.userApplication
    prompt.currentEncoderPosition prompt.eventData = next at htransition
  cases htransition with
  | calibrate => exact hstate
  | ignore => exact hstate
  | home _ htype => exact absurd htype hhome
  | accept haccept => cases hstate.symm.trans haccept.1
  | finish hfinish => cases hstate.symm.trans hfinish.1

end Step

section Run
variable {s : Session}

private theorem run_phase (h : Phase s) (prompts : List Prompt) :
    Phase (Machine.run Session.step s prompts) :=
  Machine.run_invariant prompts h fun _ prompt hs => step_phase hs prompt

private theorem run_calibrated (h : Phase s) (hstate : s.state ≠ .calibration)
    (prompts : List Prompt) :
    (Machine.run Session.step s prompts).state ≠ .calibration := by
  have hboth := Machine.run_invariant (P := fun s => Phase s ∧ s.state ≠ .calibration) prompts
    ⟨h, hstate⟩ fun _ prompt hs => ⟨step_phase hs.1 prompt, step_calibrated hs.1 hs.2 prompt⟩
  exact hboth.2

private theorem run_calibration (h : Phase s) (hstate : s.state = .calibration)
    {prompts : List Prompt}
    (hhome : ∀ prompt ∈ prompts, prompt.eventData.type ≠ .homeActivity) :
    (Machine.run Session.step s prompts).state = .calibration := by
  induction prompts generalizing s with
  | nil => exact hstate
  | cons prompt rest ih =>
    rw [List.forall_mem_cons] at hhome
    exact ih (step_phase h prompt) (step_calibration h hstate hhome.1) hhome.2

private theorem Phase.alternates (h : Phase s) : Alternates s.messages := by
  cases h with
  | calibration _ hmessages => exact ⟨[], List.forall_mem_nil _, .inl hmessages⟩
  | ready exchanges hreached _ _ hmessages => exact ⟨exchanges, hreached, .inl hmessages⟩
  | execution exchanges hreached cmd _ _ _ hmessages =>
    exact ⟨exchanges, hreached, .inr ⟨cmd, hmessages⟩⟩

theorem Phase.silent (h : Phase s) (hstate : s.state = .calibration) : s.messages = [] := by
  cases h with
  | calibration _ hmessages => exact hmessages
  | ready _ _ hready => cases hready.symm.trans hstate
  | execution _ _ _ _ happ =>
    rw [Session.state, happ] at hstate
    cases hstate

theorem Phase.ready_off (h : Phase s) (hstate : s.state = .ready) :
    s.stepperMotor.pwmEnabled = false := by
  cases h with
  | calibration hcalibration => cases hcalibration.symm.trans hstate
  | ready _ _ _ hoff => exact hoff
  | execution _ _ _ _ happ =>
    rw [Session.state, happ] at hstate
    cases hstate

private theorem Phase.execution_ok (h : Phase s) (hstate : s.state = .execution)
    (hon : s.stepperMotor.pwmEnabled = true) :
    s.userApplication.userApplicationStateMachineParams.respStatus = .ok := by
  cases h with
  | calibration hcalibration => cases hcalibration.symm.trans hstate
  | ready _ _ hready => cases hready.symm.trans hstate
  | execution _ _ cmd _ happ hmotor =>
    rw [happ]
    exact hmotor hon

end Run

/-- The protocol, over every sequence of events at any positions, from calibration with the
motor off and whatever parameters are saved: the motor rests in the ready state and runs in
execution only with status OK; nothing passes before a home event; commands and responses
alternate, each response is the one computed for the command before it, and with status OK
it is sent at the requested position; and calibration is never entered again. -/
theorem session_protocol (params : UserApplicationStateMachineParams)
    (dirPin : StepperMotorDrvDirPinStatus) (prompts : List Prompt) :
    let s := Machine.run Session.step ⟨⟨.calibration, params⟩, ⟨dirPin, false⟩, []⟩ prompts
    (s.state = .ready → s.stepperMotor.pwmEnabled = false) ∧
      ((∀ prompt ∈ prompts, prompt.eventData.type ≠ .homeActivity) → s.messages = []) ∧
      Alternates s.messages ∧
      (s.state = .execution → s.stepperMotor.pwmEnabled = true →
        s.userApplication.userApplicationStateMachineParams.respStatus = .ok) ∧
      (s.state ≠ .calibration → ∀ more, (Machine.run Session.step s more).state ≠ .calibration) := by
  intro s
  have hstart : Phase ⟨⟨.calibration, params⟩, ⟨dirPin, false⟩, []⟩ := .calibration rfl rfl
  have hphase : Phase s := run_phase hstart prompts
  refine ⟨hphase.ready_off, fun hhome => ?_, hphase.alternates, hphase.execution_ok,
    fun hstate more => run_calibrated hphase hstate more⟩
  exact hphase.silent (run_calibration hstart rfl hhome)

end ClosedLoopStepper.Application
