import ClosedLoopStepper.Scheduler.EventQueue
import ClosedLoopStepper.Ipc.Ipc
import ClosedLoopStepper.Application.UserApplication

/-! The whole firmware: the interrupt callbacks and the turns of the execution loop as
steps on the components' static variables, over any event queue. The callbacks run
between handlers, each to its end. -/
namespace ClosedLoopStepper.Device
open Scheduler Ipc Encoder StepperMotor Application

/-- The functions whose addresses are stored. -/
inductive Handler
  | null
  | ipcReceivedDataPacketPostProcessing
  | userApplicationProcessReceivedDataPacket
  | userApplicationEncoderStepActivity
  | userApplicationEncoderHomeActivity
  | userApplicationStateMachine
  deriving DecidableEq, Repr

/-- What can be seen from outside: a packet given to the application's handler, a call
of a drive function, and the bytes of a sent frame. -/
inductive Output
  | received (status : IpcReceptionStatus) (payload : List UInt8)
  | drive (drive : Drive)
  | transmitted (bytes : List UInt8)
  deriving DecidableEq, Repr

/-- A byte from the receiver, a pin interrupt, or one turn of the execution loop. -/
inductive Input
  | receivedByte (receivedData : UInt8)
  | pinTransition (gpio eventMask : Nat) (levelA levelB : Bool)
  | execute
  deriving DecidableEq, Repr

structure Firmware (Q : Type) where
  scheduler : Q
  ipc : IpcComponent Handler
  encoder : EncoderDrv Handler
  stepperMotor : StepperMotorDrv
  userApplication : UserApplication
  log : List Output

variable {Q : Type} [EventQueue Q Handler]

namespace Firmware

def put (fw : Firmware Q) (e : SchedulerEvent Handler) : Firmware Q :=
  { fw with scheduler := (EventQueue.put fw.scheduler e).1 }

/-- Every put of the application; the answer is ignored. -/
def putEvent (fw : Firmware Q) (eventData : UserApplicationStateMachineEventData) : Firmware Q :=
  fw.put ⟨.userApplicationStateMachine, eventData.toBytes⟩

def emit (fw : Firmware Q) (output : Output) : Firmware Q := { fw with log := fw.log ++ [output] }

def receiveByte (fw : Firmware Q) (receivedData : UInt8) : Firmware Q :=
  let next := ipcStateMachineEventHandler fw.ipc receivedData
  let fw := { fw with ipc := next.1 }
  match next.2 with
  | some params => fw.put ⟨.ipcReceivedDataPacketPostProcessing, params.toBytes⟩
  | none => fw

/-- A handler called with no data. The two that take data do nothing then; the others
are never registered with the encoder. -/
def call (fw : Firmware Q) : Handler → Firmware Q
  | .userApplicationEncoderStepActivity => fw.putEvent (.ofType .stepActivity)
  | .userApplicationEncoderHomeActivity => fw.putEvent (.ofType .homeActivity)
  | _ => fw

def dispatch (fw : Firmware Q) : Option (Dispatch Handler) → Firmware Q
  | some (.call handler) => fw.call handler
  | some (.put handler) => fw.put ⟨handler.getD .null, []⟩
  | none => fw

def pinTransition (fw : Firmware Q) (gpio eventMask : Nat) (levelA levelB : Bool) : Firmware Q :=
  let next := encoderDrvStepHomePinTransitionsCallback fw.encoder gpio eventMask levelA levelB
  { fw with encoder := next.1 }.dispatch next.2

/-- The application's packet handler copies a whole command frame, whatever the size. -/
def processReceivedDataPacket (fw : Firmware Q) (eventData : IpcDataPacketReceivedEventData) :
    Firmware Q :=
  let payload := (List.range eventData.receivedDataSize.toNat).map eventData.pReceivedData
  let fw := fw.emit (.received eventData.receptionStatus payload)
  match eventData.receptionStatus with
  | .ok => fw.putEvent ⟨.processCmdRequest, .ofMemory eventData.pReceivedData⟩
  | .packetCorrupted => fw

def postProcess (fw : Firmware Q) (params : IpcReceivedDataPacketPostProcessingParams) :
    Firmware Q :=
  match fw.ipc.ipcDataPacketReceivedEventHandler with
  | some .userApplicationProcessReceivedDataPacket =>
    fw.processReceivedDataPacket (ipcReceivedDataPacketPostProcessingHandler fw.ipc params)
  | _ => fw

def perform (fw : Firmware Q) : Action → Firmware Q
  | .drive drive => { fw with stepperMotor := fw.stepperMotor.drive drive }.emit (.drive drive)
  | .schedulerEventPut eventData => fw.putEvent eventData
  | .ipcSendDataPacket dataPacket =>
    fw.emit (.transmitted (ipcSendDataPacket (some (Common.pointer dataPacket))
      (UInt8.ofNat dataPacket.length)).2)

def handleEvent (fw : Firmware Q) (eventData : UserApplicationStateMachineEventData) :
    Firmware Q :=
  let next := userApplicationStateMachineEventHandler fw.userApplication
    (encoderDrvGetEncoderPosition fw.encoder) eventData
  next.2.foldl perform { fw with userApplication := next.1 }

def invoke (fw : Firmware Q) (e : SchedulerEvent Handler) : Firmware Q :=
  match e.handler with
  | .ipcReceivedDataPacketPostProcessing =>
    if e.data = [] then fw else fw.postProcess (.ofBytes e.data)
  | .userApplicationStateMachine =>
    match UserApplicationStateMachineEventData.ofBytes e.data with
    | some eventData => fw.handleEvent eventData
    | none => fw
  | handler => fw.call handler

def completeEvent (fw : Firmware Q) : Firmware Q :=
  { fw with scheduler := EventQueue.complete fw.scheduler }

def executeEvent (fw : Firmware Q) : Firmware Q :=
  match EventQueue.current fw.scheduler with
  | some e => (fw.invoke e).completeEvent
  | none => fw

def step (fw : Firmware Q) : Input → Firmware Q
  | .receivedByte receivedData => fw.receiveByte receivedData
  | .pinTransition gpio eventMask levelA levelB => fw.pinTransition gpio eventMask levelA levelB
  | .execute => fw.executeEvent

/-- The execution loop; `none` when the fuel does not suffice. -/
def schedulerExecute : Nat → Firmware Q → Option (Firmware Q)
  | 0, fw => if (EventQueue.current fw.scheduler).isSome then none else some fw
  | fuel + 1, fw =>
    if (EventQueue.current fw.scheduler).isSome then schedulerExecute fuel fw.executeEvent
    else some fw

def userApplicationInit (scheduler : Q) : Firmware Q :=
  { scheduler
    ipc := (ipcInit .initial (some .userApplicationProcessReceivedDataPacket)).1
    encoder := encoderDrvInit .initial
      ⟨some .userApplicationEncoderStepActivity, some .userApplicationEncoderHomeActivity⟩
      .immediate
    stepperMotor := .initial
    userApplication := .initial
    log := [] : Firmware Q }.putEvent (.ofType .internal)

end Firmware

def initialScheduler : SchedulerParams Handler := (schedulerInit (.zeroed .null)).1

/-- The firmware over the scheduler's arrays, as `main` enters its loop. -/
def start : Firmware (SchedulerParams Handler) := .userApplicationInit initialScheduler

end ClosedLoopStepper.Device
