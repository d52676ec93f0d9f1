import ClosedLoopStepper.Encoder.EncoderDrv
import ClosedLoopStepper.StepperMotor.StepperMotorDrv

/-! The user application: its messages, and its state machine as a function of the event
and of the encoder position it reads. What the handler calls is returned in order. -/
namespace ClosedLoopStepper.Application
open Encoder StepperMotor

def userApplicationMessagesCmdTypeSetStepperMotorAngle : UInt8 := 0
def userApplicationMessagesRespTypeSetStepperMotorAngle : UInt8 := 0

inductive UserApplicationMessagesRespStatus
  | ok | invalidAngleRequested
  deriving DecidableEq, Repr

def UserApplicationMessagesRespStatus.toByte : UserApplicationMessagesRespStatus → UInt8
  | ok => 0
  | invalidAngleRequested => 1

/-- The packed command frame: a one-byte type and a little-endian angle. -/
structure UserApplicationMessagesCmdSetStepperMotorAngle where
  cmdType : UInt8
  angleRequestedLsb : UInt8
  angleRequestedMsb : UInt8
  deriving DecidableEq, Repr

namespace UserApplicationMessagesCmdSetStepperMotorAngle

def angleRequested (cmd : UserApplicationMessagesCmdSetStepperMotorAngle) : Nat :=
  cmd.angleRequestedLsb.toNat + 256 * cmd.angleRequestedMsb.toNat

def ofMemory (p : Nat → UInt8) : UserApplicationMessagesCmdSetStepperMotorAngle :=
  ⟨p 0, p 1, p 2⟩

end UserApplicationMessagesCmdSetStepperMotorAngle

structure UserApplicationMessagesRespSetStepperMotorAngle where
  respType : UInt8
  respStatus : UserApplicationMessagesRespStatus
  angleAchieved : Nat
  deriving DecidableEq, Repr

def UserApplicationMessagesRespSetStepperMotorAngle.toBytes
    (resp : UserApplicationMessagesRespSetStepperMotorAngle) : List UInt8 :=
  [resp.respType, resp.respStatus.toByte, UInt8.ofNat (resp.angleAchieved % 256),
    UInt8.ofNat (resp.angleAchieved / 256)]

inductive UserApplicationStateMachineState
  | calibration | ready | execution
  deriving DecidableEq, Repr

inductive UserApplicationStateMachineEventType
  | internal | processCmdRequest | stepActivity | homeActivity
  deriving DecidableEq, Repr

namespace UserApplicationStateMachineEventType

def toByte : UserApplicationStateMachineEventType → UInt8
  | internal => 0
  | processCmdRequest => 1
  | stepActivity => 2
  | homeActivity => 3

/-- `none` is a byte that every switch of the handler sends to its default branch. -/
def ofByte (b : UInt8) : Option UserApplicationStateMachineEventType :=
  if b = 0 then some internal
  else if b = 1 then some processCmdRequest
  else if b = 2 then some stepActivity
  else if b = 3 then some homeActivity
  else none

@[simp] theorem ofByte_toByte (type : UserApplicationStateMachineEventType) :
    ofByte type.toByte = some type := by
  cases type <;> decide

def prompts : UserApplicationStateMachineEventType → Bool
  | internal | stepActivity => true
  | processCmdRequest | homeActivity => false

end UserApplicationStateMachineEventType

/-- The packed event: its type, then the command frame. -/
structure UserApplicationStateMachineEventData where
  type : UserApplicationStateMachineEventType
  processCmdRequestEventData : UserApplicationMessagesCmdSetStepperMotorAngle
  deriving DecidableEq, Repr

namespace UserApplicationStateMachineEventData

def ofType (type : UserApplicationStateMachineEventType) : UserApplicationStateMachineEventData :=
  ⟨type, ⟨0, 0, 0⟩⟩

def toBytes (eventData : UserApplicationStateMachineEventData) : List UInt8 :=
  let cmd := eventData.processCmdRequestEventData
  [eventData.type.toByte, cmd.cmdType, cmd.angleRequestedLsb, cmd.angleRequestedMsb]

/-- What the handler makes of its data; `none` when it does nothing with them. -/
def ofBytes (bytes : List UInt8) : Option UserApplicationStateMachineEventData :=
  match bytes with
  | [] => none
  | type :: cmd =>
    (UserApplicationStateMachineEventType.ofByte type).map fun type =>
      ⟨type, ⟨cmd.getD 0 0, cmd.getD 1 0, cmd.getD 2 0⟩⟩

@[simp] theorem ofBytes_toBytes (eventData : UserApplicationStateMachineEventData) :
    ofBytes eventData.toBytes = some eventData := by
  simp [ofBytes, toBytes]

end UserApplicationStateMachineEventData

/-- `positionRequested` is a byte. -/
structure UserApplicationStateMachineParams where
  savedCmdType : UInt8
  respStatus : UserApplicationMessagesRespStatus
  positionRequested : Nat
  deriving DecidableEq, Repr

structure UserApplication where
  userApplicationStateMachineState : UserApplicationStateMachineState
  userApplicationStateMachineParams : UserApplicationStateMachineParams
  deriving DecidableEq, Repr

def UserApplication.initial : UserApplication := ⟨.calibration, ⟨0, .ok, 0⟩⟩

inductive Action
  | drive (drive : Drive)
  | schedulerEventPut (eventData : UserApplicationStateMachineEventData)
  | ipcSendDataPacket (dataPacket : List UInt8)
  deriving DecidableEq, Repr

def requestedPosition (cmd : UserApplicationMessagesCmdSetStepperMotorAngle) : Nat :=
  encoderDrvEncoderAngleToPosition cmd.angleRequested % 256

/-- The branch of a set angle command in the ready state. -/
def setStepperMotorAngle (cmd : UserApplicationMessagesCmdSetStepperMotorAngle)
    (currentEncoderPosition : Nat) : UserApplication × List Action :=
  let position := requestedPosition cmd
  if encoderDrvIsEncoderPositionValid position = false then
    (⟨.execution, ⟨cmd.cmdType, .invalidAngleRequested, position⟩⟩,
      [.schedulerEventPut (.ofType .internal)])
  else
    (⟨.execution, ⟨cmd.cmdType, .ok, position⟩⟩,
      if position > currentEncoderPosition then [.drive .anticlockwise]
      else if position < currentEncoderPosition then [.drive .clockwise]
      else [.schedulerEventPut (.ofType .internal)])

def response (params : UserApplicationStateMachineParams) :
    UserApplicationMessagesRespSetStepperMotorAngle where
  respType := userApplicationMessagesRespTypeSetStepperMotorAngle
  respStatus := params.respStatus
  angleAchieved := encoderDrvEncoderPositionToAngle params.positionRequested

def finishExecution (app : UserApplication) (currentEncoderPosition : Nat) :
    UserApplication × List Action :=
  let params := app.userApplicationStateMachineParams
  if params.savedCmdType = userApplicationMessagesCmdTypeSetStepperMotorAngle then
    if params.positionRequested = currentEncoderPosition ∨ params.respStatus ≠ .ok then
      ({ app with userApplicationStateMachineState := .ready },
        [.drive .stop, .ipcSendDataPacket (response params).toBytes])
    else (app, [])
  else (app, [])

def userApplicationStateMachineEventHandler (app : UserApplication)
    (currentEncoderPosition : Nat) (eventData : UserApplicationStateMachineEventData) :
    UserApplication × List Action :=
  match app.userApplicationStateMachineState with
  | .calibration =>
    match eventData.type with
    | .internal => (app, [.drive .clockwise])
    | .processCmdRequest | .stepActivity => (app, [])
    | .homeActivity => ({ app with userApplicationStateMachineState := .ready }, [.drive .stop])
  | .ready =>
    match eventData.type with
    | .processCmdRequest =>
      let cmd := eventData.processCmdRequestEventData
      if cmd.cmdType = userApplicationMessagesCmdTypeSetStepperMotorAngle then
        setStepperMotorAngle cmd currentEncoderPosition
      else (app, [])
    | .internal | .stepActivity | .homeActivity => (app, [])
  | .execution =>
    match eventData.type with
    | .processCmdRequest | .homeActivity => (app, [])
    | .internal | .stepActivity => finishExecution app currentEncoderPosition

section Transition
variable (app : UserApplication) (currentEncoderPosition : Nat)
  (eventData : UserApplicationStateMachineEventData)

def Accepts : Prop :=
  app.userApplicationStateMachineState = .ready ∧ eventData.type = .processCmdRequest ∧
    eventData.processCmdRequestEventData.cmdType = userApplicationMessagesCmdTypeSetStepperMotorAngle

/-- The execution state is over: the position is reached, or there is none to reach. -/
def Finishes : Prop :=
  app.userApplicationStateMachineState = .execution ∧ eventData.type.prompts = true ∧
    (app.userApplicationStateMachineParams.positionRequested = currentEncoderPosition ∨
      app.userApplicationStateMachineParams.respStatus ≠ .ok)

instance : Decidable (Accepts app eventData) := inferInstanceAs (Decidable (_ ∧ _))

instance : Decidable (Finishes app currentEncoderPosition eventData) :=
  inferInstanceAs (Decidable (_ ∧ _))

/-- All that the handler can do with an event. -/
inductive Transition : UserApplication × List Action → Prop
  | calibrate (hstate : app.userApplicationStateMachineState = .calibration)
      (htype : eventData.type = .internal) : Transition (app, [.drive .clockwise])
  | home (hstate : app.userApplicationStateMachineState = .calibration)
      (htype : eventData.type = .homeActivity) :
      Transition ({ app with userApplicationStateMachineState := .ready }, [.drive .stop])
  | accept (h : Accepts app eventData) :
      Transition
        (setStepperMotorAngle eventData.processCmdRequestEventData currentEncoderPosition)
  | finish (h : Finishes app currentEncoderPosition eventData) :
      Transition ({ app with userApplicationStateMachineState := .ready },
        [.drive .stop,
          .ipcSendDataPacket (response app.userApplicationStateMachineParams).toBytes])
  | ignore (haccept : ¬ Accepts app eventData)
      (hfinish : ¬ Finishes app currentEncoderPosition eventData)
      (hcalibration : app.userApplicationStateMachineState = .calibration →
        eventData.type = .processCmdRequest ∨ eventData.type = .stepActivity) :
      Transition (app, [])

variable {app}

/-- Only one type of command is ever in execution. -/
theorem handler_transition
    (hsaved : app.userApplicationStateMachineState = .execution →
      app.userApplicationStateMachineParams.savedCmdType =
        userApplicationMessagesCmdTypeSetStepperMotorAngle) :
    Transition app currentEncoderPosition eventData
      (userApplicationStateMachineEventHandler app currentEncoderPosition eventData) := by
  unfold userApplicationStateMachineEventHandler
  cases hstate : app.userApplicationStateMachineState with
  | calibration =>
    have haccept : ¬ Accepts app eventData := by simp [Accepts, hstate]
    have hfinish : ¬ Finishes app currentEncoderPosition eventData := by simp [Finishes, hstate]
    cases htype : eventData.type with
    | internal => exact .calibrate hstate htype
    | homeActivity => exact .home hstate htype
    | processCmdRequest => exact .ignore haccept hfinish fun _ => .inl htype
    | stepActivity => exact .ignore haccept hfinish fun _ => .inr htype
  | ready =>
    have hfinish : ¬ Finishes app currentEncoderPosition eventData := by simp [Finishes, hstate]
    have hignore (h : ¬ Accepts app eventData) :
        Transition app currentEncoderPosition eventData (app, []) :=
      .ignore h hfinish (by simp [hstate])
    cases htype : eventData.type with
    | processCmdRequest =>
      dsimp only
      split
      · exact .accept ⟨hstate, htype, ‹_›⟩
      · exact hignore fun h => absurd h.2.2 ‹_›
    | internal => exact hignore (by simp [Accepts, htype])
    | stepActivity => exact hignore (by simp [Accepts, htype])
    | homeActivity => exact hignore (by simp [Accepts, htype])
  | execution =>
    have hignore (h : ¬ Finishes app currentEncoderPosition eventData) :
        Transition app currentEncoderPosition eventData (app, []) :=
      .ignore (by simp [Accepts, hstate]) h (by simp [hstate])
    have hprompt (h : eventData.type.prompts = true) : Transition app currentEncoderPosition
        eventData (finishExecution app currentEncoderPosition) := by
      rw [finishExecution, if_pos (hsaved hstate)]
      split
      · exact .finish ⟨hstate, h, ‹_›⟩
      · exact hignore fun hf => absurd hf.2.2 ‹_›
    cases htype : eventData.type with
    | internal => exact hprompt (by rw [htype]; rfl)
    | stepActivity => exact hprompt (by rw [htype]; rfl)
    | processCmdRequest =>
      exact hignore (by simp [Finishes, htype, UserApplicationStateMachineEventType.prompts])
    | homeActivity =>
      exact hignore (by simp [Finishes, htype, UserApplicationStateMachineEventType.prompts])

end Transition

section SetAngle
variable (cmd : UserApplicationMessagesCmdSetStepperMotorAngle) (currentEncoderPosition : Nat)

/-- A command that moves nothing: the answer is prompted by an internal event. -/
def Immediate : Prop :=
  encoderDrvIsEncoderPositionValid (requestedPosition cmd) = false ∨
    requestedPosition cmd = currentEncoderPosition

instance : Decidable (Immediate cmd currentEncoderPosition) := inferInstanceAs (Decidable (_ ∨ _))

/-- The state after an accepted command, whatever it asks for. -/
theorem setStepperMotorAngle_app :
    (setStepperMotorAngle cmd currentEncoderPosition).1 =
      ⟨.execution, ⟨cmd.cmdType,
        if encoderDrvIsEncoderPositionValid (requestedPosition cmd) = false then
          .invalidAngleRequested else .ok, requestedPosition cmd⟩⟩ := by
  unfold setStepperMotorAngle
  dsimp only
  split_ifs <;> rfl

/-- The one call made for an accepted command. -/
theorem setStepperMotorAngle_actions :
    (Immediate cmd currentEncoderPosition ∧
      (setStepperMotorAngle cmd currentEncoderPosition).2 =
        [.schedulerEventPut (.ofType .internal)]) ∨
    (¬ Immediate cmd currentEncoderPosition ∧ currentEncoderPosition < requestedPosition cmd ∧
      (setStepperMotorAngle cmd currentEncoderPosition).2 = [.drive .anticlockwise]) ∨
    (¬ Immediate cmd currentEncoderPosition ∧ requestedPosition cmd < currentEncoderPosition ∧
      (setStepperMotorAngle cmd currentEncoderPosition).2 = [.drive .clockwise]) := by
  unfold setStepperMotorAngle Immediate
  dsimp only
  split_ifs with hvalid hgt hlt
  · exact .inl ⟨.inl hvalid, rfl⟩
  · exact .inr (.inl ⟨by rw [not_or]; exact ⟨hvalid, by omega⟩, hgt, rfl⟩)
  · exact .inr (.inr ⟨by rw [not_or]; exact ⟨hvalid, by omega⟩, hlt, rfl⟩)
  · exact .inl ⟨.inr (by omega), rfl⟩

end SetAngle
end ClosedLoopStepper.Application
