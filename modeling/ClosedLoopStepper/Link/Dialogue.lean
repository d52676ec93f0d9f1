import ClosedLoopStepper.Commander.Port
import ClosedLoopStepper.Device.Command
import ClosedLoopStepper.Device.StaleBytes

/-! The commander's program, run again and again, and the device, with the bytes on their
way between the two. Bytes arrive in order but at any time, and the loop, the pins and the
reads take their turns in any order. -/
namespace ClosedLoopStepper.Link
open Foundations Foundations.Framing Scheduler Ipc Encoder Application Device

/-- The receive callback: it reads the bytes that are available until none is left. -/
def ipcReceiverBufferDataAvailableCallback (fw : Firmware (SchedulerParams Handler)) :
    List UInt8 → Firmware (SchedulerParams Handler)
  | [] => fw
  | b :: available => ipcReceiverBufferDataAvailableCallback (fw.receiveByte b) available

/-- `asked` is the angle of the running program, which waits for its response. `port` holds
the bytes that have arrived there and `ended` the programs that are over. -/
structure Dialogue where
  asked : Option Int
  toDevice : List UInt8
  device : Firmware (SchedulerParams Handler)
  toCommander : List UInt8
  port : List UInt8
  ended : List (Int × Commander.SmcOutcome)

/-- A program is started once the one before it is over. The receive callback finds any
number of the bytes on their way. -/
inductive DialogueStep
  | run (smcRequestedAngle : Int)
  | deviceReceives (available : Nat)
  | pinTransition (gpio eventMask : Nat) (levelA levelB : Bool)
  | execute
  | portReceives
  | read
  deriving DecidableEq, Repr

def sentBytes (log : List Output) : List UInt8 := (log.filterMap Output.response).flatten

namespace Dialogue

def start : Dialogue := ⟨none, [], Device.start, [], [], []⟩

def proceed (d : Dialogue) (device : Firmware (SchedulerParams Handler)) : Dialogue :=
  { d with
    device
    toCommander := d.toCommander ++ sentBytes (device.log.drop d.device.log.length) }

def step (d : Dialogue) : DialogueStep → Dialogue
  | .run smcRequestedAngle =>
    match d.asked, Commander.smcCommandBytes smcRequestedAngle with
    | some _, _ => d
    | none, none => { d with ended := d.ended ++ [(smcRequestedAngle, .raised)] }
    | none, some bytes =>
      { d with asked := some smcRequestedAngle, toDevice := d.toDevice ++ bytes }
  | .deviceReceives available =>
    { d with toDevice := d.toDevice.drop available }.proceed
      (ipcReceiverBufferDataAvailableCallback d.device (d.toDevice.take available))
  | .pinTransition gpio eventMask levelA levelB =>
    d.proceed (d.device.step (.pinTransition gpio eventMask levelA levelB))
  | .execute => d.proceed (d.device.step .execute)
  | .portReceives =>
    { d with port := d.port ++ d.toCommander.take 1, toCommander := d.toCommander.drop 1 }
  | .read =>
    match d.asked, Commander.smcReads d.port with
    | some angle, some (outcome, port) =>
      { d with asked := none, port, ended := d.ended ++ [(angle, outcome)] }
    | _, _ => d

end Dialogue

/-- The callback is one received byte after another. -/
theorem callback_eq_feedBytes (fw : Firmware (SchedulerParams Handler)) (available : List UInt8) :
    ipcReceiverBufferDataAvailableCallback fw available = feedBytes fw available := by
  induction available generalizing fw with
  | nil => rfl
  | cons b rest ih => exact ih (fw.receiveByte b)

end ClosedLoopStepper.Link
