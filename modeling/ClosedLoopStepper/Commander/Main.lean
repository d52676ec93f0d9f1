import ClosedLoopStepper.Commander.Ipc

/-! The commander's main program: the command it sends for an angle, and what it makes of
the response. -/
namespace ClosedLoopStepper.Commander

def smcStepperMotorAngleLowerBound : Int := 0
def smcStepperMotorAngleHigherBound : Int := 359
def smcStepperMotorAngleDataSize : Nat := 2

def smcCmdMsgCmdTypeSetStepperMotorAngle : UInt8 := 0

def smcRespMsgRespTypeDataIndex : Nat := 0
def smcRespMsgRespTypeSetStepperMotorAngle : UInt8 := 0
def smcRespMsgRespStatusDataIndex : Nat := 1
def smcRespMsgRespStatusOk : UInt8 := 0
def smcRespMsgAchStepperMotorAngleDataIndex : Nat := 2

def toBytes : Nat → Nat → List UInt8
  | _, 0 => []
  | n, size + 1 => UInt8.ofNat n :: toBytes (n / 256) size

/-- The bytes written for an angle; `none` when it is out of range and the program raises. -/
def smcCommandBytes (smcRequestedAngle : Int) : Option (List UInt8) :=
  if smcStepperMotorAngleLowerBound ≤ smcRequestedAngle ∧
      smcRequestedAngle ≤ smcStepperMotorAngleHigherBound then
    sendDataPacket (smcCmdMsgCmdTypeSetStepperMotorAngle ::
      toBytes smcRequestedAngle.toNat smcStepperMotorAngleDataSize)
  else none

/-- How the program ends: with an angle printed, with an exception, or with the message
that no proper response was received. -/
inductive SmcOutcome
  | achieved (smcAchievedAngle : Nat)
  | raised
  | noResponse
  deriving DecidableEq, Repr

/-- An index past the end of the response raises, too. -/
def smcOutcome (smcResponseFrame : Option (List UInt8)) : SmcOutcome :=
  match smcResponseFrame with
  | none | some [] => .noResponse
  | some frame =>
    if frame[smcRespMsgRespTypeDataIndex]? ≠ some smcRespMsgRespTypeSetStepperMotorAngle then .raised
    else if frame[smcRespMsgRespStatusDataIndex]? ≠ some smcRespMsgRespStatusOk then .raised
    else .achieved (fromBytes ((frame.drop smcRespMsgAchStepperMotorAngleDataIndex).take
      smcStepperMotorAngleDataSize))

/-- What the program makes of the bytes that the port receives, and what it leaves there;
`none` while it is blocked. -/
def smcReads (port : List UInt8) : Option (SmcOutcome × List UInt8) :=
  (receiveDataPacket port).map fun received => (smcOutcome received.1, received.2)

end ClosedLoopStepper.Commander
