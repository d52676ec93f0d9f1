import ClosedLoopStepper.Commander.Main
import ClosedLoopStepper.Device.Angles

/-! One command from its frame to the motor: the frame is received whole, the queue is
drained, and the application either has answered at once or drives towards its target. -/
namespace ClosedLoopStepper.Device
open Foundations Foundations.Framing Common Scheduler Ipc Encoder StepperMotor Application

def commandPayload (angle : Nat) : List UInt8 :=
  Commander.smcCmdMsgCmdTypeSetStepperMotorAngle ::
    Commander.toBytes angle Commander.smcStepperMotorAngleDataSize

theorem commandPayload_admits (angle : Nat) : ipcFormat.Admits (commandPayload angle) :=
  ⟨Nat.zero_lt_succ 2, show 3 ≤ 251 by decide⟩

theorem smcCommandBytes_eq {angle : Nat} (h : angle ≤ 359) :
    Commander.smcCommandBytes angle = some (ipcFormat.frame (commandPayload angle)) := by
  have hrange : Commander.smcStepperMotorAngleLowerBound ≤ angle ∧
      (angle : Int) ≤ Commander.smcStepperMotorAngleHigherBound := by
    simp only [Commander.smcStepperMotorAngleLowerBound, Commander.smcStepperMotorAngleHigherBound]
    omega
  rw [Commander.smcCommandBytes, if_pos hrange, Int.toNat_natCast]
  exact Commander.sendDataPacket_frame (commandPayload_admits angle)

def commandOf (angle : Nat) : UserApplicationMessagesCmdSetStepperMotorAngle :=
  ⟨userApplicationMessagesCmdTypeSetStepperMotorAngle, UInt8.ofNat angle, UInt8.ofNat (angle / 256)⟩

theorem ofMemory_received {ipc : IpcComponent Handler} {angle : Nat}
    (h : ipc.received (commandPayload angle).length = commandPayload angle) :
    .ofMemory ipc.ipcReceivedDataPacketBuffer = commandOf angle := by
  have hbytes : [ipc.ipcReceivedDataPacketBuffer 0, ipc.ipcReceivedDataPacketBuffer 1,
      ipc.ipcReceivedDataPacketBuffer 2] = [0, UInt8.ofNat angle, UInt8.ofNat (angle / 256)] := h
  simp only [List.cons.injEq, and_true] at hbytes
  obtain ⟨htype, hlsb, hmsb⟩ := hbytes
  rw [UserApplicationMessagesCmdSetStepperMotorAngle.ofMemory, htype, hlsb, hmsb]
  rfl

private theorem requestedPosition_commandOf {angle : Nat} (h : angle ≤ 359) :
    requestedPosition (commandOf angle) = angle / 2 := by
  have hangle : (commandOf angle).angleRequested = angle := by
    simp only [commandOf, UserApplicationMessagesCmdSetStepperMotorAngle.angleRequested,
      UInt8.toNat_ofNat']
    omega
  rw [requestedPosition_eq, hangle]
  omega

/-- An angle that the commander sends is a valid position. -/
theorem executing_commandOf {angle : Nat} (h : angle ≤ 359) :
    executing (commandOf angle) =
      ⟨.execution, ⟨userApplicationMessagesCmdTypeSetStepperMotorAngle, .ok, angle / 2⟩⟩ := by
  have hvalid : encoderDrvIsEncoderPositionValid (requestedPosition (commandOf angle)) = true := by
    rw [valid_iff, requestedPosition_commandOf h]
    omega
  rw [executing, commandStatus, hvalid, requestedPosition_commandOf h]
  rfl

private theorem immediate_commandOf_iff {angle position : Nat} (h : angle ≤ 359) :
    Immediate (commandOf angle) position ↔ position = angle / 2 := by
  have hvalid : encoderDrvIsEncoderPositionValid (requestedPosition (commandOf angle)) = true := by
    rw [valid_iff, requestedPosition_commandOf h]
    omega
  rw [Immediate, hvalid, requestedPosition_commandOf h]
  constructor
  · rintro (hfalse | heq)
    · cases hfalse
    · exact heq.symm
  · exact fun heq => .inr heq.symm

namespace Controller
variable {c : Controller}

/-- Bytes change the receiver and extend the queue, and nothing else. -/
theorem run_bytes (c : Controller) (bytes : List UInt8) :
    Machine.run step c (bytes.map .receivedByte) =
      { c with
        ipc := (c.ipc.receive bytes).1
        tasks := c.offerAll ((c.ipc.receive bytes).2.map Task.postProcessing) } := by
  induction bytes generalizing c with
  | nil => rfl
  | cons b rest ih =>
    rw [List.map_cons, Machine.run_cons]
    change Machine.run step (c.receiveByte b) _ = _
    rw [ih]
    simp only [receiveByte, IpcComponent.receive, offerAll, List.map_append, List.foldl_append,
      Option.toList_map]

/-- The queue drained by as many turns as are always enough. -/
def settle (c : Controller) : Controller :=
  Machine.run step c (List.replicate (3 * schedulerMaxQueueSize) .execute)

private theorem idle_run (h : c.tasks = []) (turns : Nat) :
    Machine.run step c (List.replicate turns .execute) = c := by
  have hfix : c.step .execute = c := execute_idle h
  exact Machine.run_fixed hfix turns

/-- Turns after the queue is empty change nothing. -/
theorem settle_eq (turns : Nat) (hle : turns ≤ 3 * schedulerMaxQueueSize)
    (h : (Machine.run step c (List.replicate turns .execute)).tasks = []) :
    c.settle = Machine.run step c (List.replicate turns .execute) := by
  have hsplit : 3 * schedulerMaxQueueSize = turns + (3 * schedulerMaxQueueSize - turns) := by omega
  rw [settle, hsplit, List.replicate_add, Machine.run_append, idle_run h]

def Registered (c : Controller) : Prop :=
  c.encoder.eventHandlers =
      ⟨some .userApplicationEncoderStepActivity, some .userApplicationEncoderHomeActivity⟩ ∧
    c.encoder.eventHandling = .immediate

structure Quiet (c : Controller) : Prop where
  saved : c.Saved
  tasks_eq : c.tasks = []
  parser : Represents c.ipc (.hunting false)
  registered : c.Registered
  position_lt : c.position < 180

/-- The motor runs towards the requested position of the command in execution. -/
structure Approaching (target : Nat) (c : Controller) : Prop where
  quiet : c.Quiet
  target_lt : target < 180
  app_eq : c.userApplication =
    ⟨.execution, ⟨userApplicationMessagesCmdTypeSetStepperMotorAngle, .ok, target⟩⟩
  motor : c.position < target ∧ c.stepperMotor = ⟨.anticlockwise, true⟩ ∨
    target < c.position ∧ c.stepperMotor = ⟨.clockwise, true⟩

structure Arrived (target : Nat) (c : Controller) : Prop where
  quiet : c.Quiet
  state_eq : c.state = .ready
  motor_off : c.motorOn = false
  position_eq : c.position = target

def arrival (target : Nat) : List Output :=
  [.drive .stop, .transmitted (angleFrame .ok (2 * target))]

/-- An internal or step event at the target ends the execution. -/
theorem execute_arrives {target : Nat} {type : UserApplicationStateMachineEventType}
    (hparser : Represents c.ipc (.hunting false)) (hregistered : c.Registered)
    (htarget : target < 180)
    (happ : c.userApplication =
      ⟨.execution, ⟨userApplicationMessagesCmdTypeSetStepperMotorAngle, .ok, target⟩⟩)
    (ht : c.tasks = [.ofType type]) (htype : type.prompts = true) (hposition : c.position = target) :
    c.execute.Arrived target ∧ c.execute.encoder = c.encoder ∧
      c.execute.log = c.log ++ arrival target := by
  have hsaved : c.Saved := by
    rw [Saved, params, happ]
  have hfinish : Finishes c.userApplication c.position (.ofType type) := by
    rw [happ]
    exact ⟨rfl, htype, .inl hposition.symm⟩
  have hturn : Turn c (.ofType type) [] c.execute := execute_turn hsaved ht
  have hframe : responseFrame c.params = angleFrame .ok (2 * target) := by
    rw [responseFrame_eq, params, happ]
  generalize c.execute = next at hturn
  cases hturn with
  | finish =>
    refine ⟨⟨⟨hsaved, rfl, hparser, hregistered, ?_⟩, rfl, rfl, hposition⟩, rfl, ?_⟩
    · change c.position < 180
      rw [hposition]
      exact htarget
    · rw [hframe]
      rfl
  | ignore _ hnot => exact absurd hfinish hnot
  | calibrate hstate => cases hstate.symm.trans hfinish.1
  | home hstate => cases hstate.symm.trans hfinish.1
  | immediate haccept => cases haccept.1.symm.trans hfinish.1
  | anticlockwise haccept => cases haccept.1.symm.trans hfinish.1
  | clockwise haccept => cases haccept.1.symm.trans hfinish.1

/-- A step event short of the target changes nothing. -/
theorem execute_stays {target : Nat}
    (happ : c.userApplication =
      ⟨.execution, ⟨userApplicationMessagesCmdTypeSetStepperMotorAngle, .ok, target⟩⟩)
    (ht : c.tasks = [.ofType .stepActivity]) (hposition : c.position ≠ target) :
    c.execute = { c with tasks := [] } := by
  have hsaved : c.Saved := by
    rw [Saved, params, happ]
  have hnot : ¬ Finishes c.userApplication c.position (.ofType .stepActivity) := by
    rw [happ]
    rintro ⟨_, _, heq | hstatus⟩
    · exact hposition heq.symm
    · exact hstatus rfl
  have hstate : c.userApplication.userApplicationStateMachineState = .execution := by
    rw [happ]
  have hturn : Turn c (.ofType .stepActivity) [] c.execute := execute_turn hsaved ht
  generalize c.execute = next at hturn
  cases hturn with
  | ignore => rfl
  | finish hfinish => exact absurd hfinish hnot
  | calibrate hcalibration => cases hcalibration.symm.trans hstate
  | home hcalibration => cases hcalibration.symm.trans hstate
  | immediate haccept => cases haccept.1.symm.trans hstate
  | anticlockwise haccept => cases haccept.1.symm.trans hstate
  | clockwise haccept => cases haccept.1.symm.trans hstate

/-- A command's frame is received, and its packet given to the application, which puts the
command into the queue. -/
theorem command_received (h : c.Quiet) (angle : Nat) :
    ∃ ipc, Represents ipc (.hunting false) ∧
      (Machine.run step c ((ipcFormat.frame (commandPayload angle)).map .receivedByte)).execute =
        { c with
          ipc
          tasks := [.stateMachine ⟨.processCmdRequest, commandOf angle⟩]
          log := c.log ++ [.received .ok (commandPayload angle)] } := by
  obtain ⟨hparser, hput, hreceived⟩ := receive_frame h.parser (commandPayload_admits angle)
  have hfed := run_bytes c (ipcFormat.frame (commandPayload angle))
  rw [hput] at hfed
  refine ⟨_, hparser, ?_⟩
  generalize (c.ipc.receive (ipcFormat.frame (commandPayload angle))).1 = ipc at hfed hreceived
  have htasks : c.offerAll [.postProcessing (postProcessingParams
      (ipcFormat.packet (commandPayload angle)))] =
      [.postProcessing (postProcessingParams (ipcFormat.packet (commandPayload angle)))] := by
    rw [offerAll, h.tasks_eq]
    rfl
  have hstatus : (ipcReceivedDataPacketPostProcessingHandler ipc
      (postProcessingParams (ipcFormat.packet (commandPayload angle)))).receptionStatus = .ok := by
    have hcrc : dataPacketCrc (ipc.received (commandPayload angle).length) =
        dataPacketCrc (commandPayload angle) := by rw [hreceived]
    exact if_pos hcrc
  rw [List.map_singleton, htasks] at hfed
  rw [hfed]
  have ht : ({ c with ipc, tasks := [.postProcessing (postProcessingParams
      (ipcFormat.packet (commandPayload angle)))] } : Controller).tasks =
      .postProcessing (postProcessingParams (ipcFormat.packet (commandPayload angle))) :: [] := rfl
  simp only [execute]
  rw [runPostProcessing_eq ht]
  dsimp only
  rw [hstatus, commandTask, ofMemory_received hreceived]
  have hpayload : ipc.received (postProcessingParams
      (ipcFormat.packet (commandPayload angle))).receivedDataSize.toNat = commandPayload angle :=
    hreceived
  rw [hpayload]
  rfl

/-- The ready state takes the command: at the requested position its internal event ends it
in the next turn, and otherwise the motor is started towards it. -/
theorem command_executed {angle : Nat} (hangle : angle ≤ 359) (hsaved : c.Saved)
    (hparser : Represents c.ipc (.hunting false)) (hregistered : c.Registered)
    (hposition : c.position < 180) (hready : c.state = .ready)
    (ht : c.tasks = [.stateMachine ⟨.processCmdRequest, commandOf angle⟩]) :
    c.position = angle / 2 ∧ c.execute.execute.Arrived (angle / 2) ∧
        c.execute.execute.encoder = c.encoder ∧
        c.execute.execute.log = c.log ++ arrival (angle / 2) ∨
      c.position ≠ angle / 2 ∧ c.execute.Approaching (angle / 2) ∧
        c.execute.encoder = c.encoder ∧ ∃ drive, c.execute.log = c.log ++ [.drive drive] := by
  have hturn : Turn c ⟨.processCmdRequest, commandOf angle⟩ [] c.execute := execute_turn hsaved ht
  have haccept : Accepts c.userApplication ⟨.processCmdRequest, commandOf angle⟩ :=
    ⟨hready, rfl, rfl⟩
  have happ := (hturn.accepted haccept).1
  rw [executing_commandOf hangle] at happ
  have htarget : angle / 2 < 180 := by omega
  generalize c.execute = next at hturn happ
  cases hturn with
  | immediate _ himmediate =>
    have hat := (immediate_commandOf_iff hangle).mp himmediate
    have hroom : c.tasks.length < schedulerMaxQueueSize := by
      rw [ht]
      exact Nat.one_lt_succ_succ 48
    rw [if_pos hroom]
    exact .inl ⟨hat, execute_arrives hparser hregistered htarget happ rfl rfl hat⟩
  | anticlockwise _ hmoves hgt =>
    have hne := fun heq => hmoves ((immediate_commandOf_iff hangle).mpr heq)
    rw [requestedPosition_commandOf hangle] at hgt
    exact .inr ⟨hne, ⟨⟨rfl, rfl, hparser, hregistered, hposition⟩, htarget, happ,
      .inl ⟨hgt, rfl⟩⟩, rfl, _, rfl⟩
  | clockwise _ hmoves hlt =>
    have hne := fun heq => hmoves ((immediate_commandOf_iff hangle).mpr heq)
    rw [requestedPosition_commandOf hangle] at hlt
    exact .inr ⟨hne, ⟨⟨rfl, rfl, hparser, hregistered, hposition⟩, htarget, happ,
      .inr ⟨hlt, rfl⟩⟩, rfl, _, rfl⟩
  | calibrate hstate => cases hstate.symm.trans hready
  | home hstate => cases hstate.symm.trans hready
  | finish hfinish => cases hready.symm.trans hfinish.1
  | ignore hnot => exact absurd haccept hnot

/-- Draining the queue after the command's frame. -/
theorem command_settled (h : c.Quiet) (hready : c.state = .ready) {angle : Nat}
    (hangle : angle ≤ 359) :
    let next := (Machine.run step c
      ((ipcFormat.frame (commandPayload angle)).map .receivedByte)).settle
    next.encoder = c.encoder ∧
      (c.position = angle / 2 ∧ next.Arrived (angle / 2) ∧
          next.log = c.log ++ .received .ok (commandPayload angle) :: arrival (angle / 2) ∨
        c.position ≠ angle / 2 ∧ next.Approaching (angle / 2) ∧
          ∃ drive, next.log = c.log ++ [.received .ok (commandPayload angle), .drive drive]) := by
  obtain ⟨ipc, hparser, hreceived⟩ := command_received h angle
  generalize Machine.run step c ((ipcFormat.frame (commandPayload angle)).map .receivedByte) = fed
    at hreceived
  intro next
  have hexecuted := command_executed (c := fed.execute) hangle
  rw [hreceived] at hexecuted
  rcases hexecuted h.saved hparser h.registered h.position_lt hready rfl with
    ⟨hat, harrived, hencoder, hlog⟩ | ⟨hne, happroaching, hencoder, drive, hlog⟩
  · rw [← hreceived] at harrived hencoder hlog
    have hnext : next = fed.execute.execute.execute :=
      settle_eq 3 (by decide) harrived.quiet.tasks_eq
    rw [hnext]
    refine ⟨hencoder.trans (by rw [hreceived]), .inl ⟨hat, harrived, ?_⟩⟩
    rw [hlog, hreceived, List.append_assoc]
    rfl
  · rw [← hreceived] at happroaching hencoder hlog
    have hnext : next = fed.execute.execute :=
      settle_eq 2 (by decide) happroaching.quiet.tasks_eq
    rw [hnext]
    refine ⟨hencoder.trans (by rw [hreceived]), .inr ⟨hne, happroaching, drive, ?_⟩⟩
    rw [hlog, hreceived, List.append_assoc]
    rfl

end Controller
end ClosedLoopStepper.Device
