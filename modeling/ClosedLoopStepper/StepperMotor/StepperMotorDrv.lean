/-! The stepper motor driver's direction pin and the PWM slice of its step pin. -/
namespace ClosedLoopStepper.StepperMotor

inductive StepperMotorDrvDirPinStatus
  | anticlockwise | clockwise
  deriving DecidableEq, Repr

structure StepperMotorDrv where
  dirPin : StepperMotorDrvDirPinStatus
  pwmEnabled : Bool
  deriving DecidableEq, Repr

/-- As the initialisation leaves the pins: anticlockwise, with the slice stopped. -/
def StepperMotorDrv.initial : StepperMotorDrv := ⟨.anticlockwise, false⟩

def stepperMotorDrvDriveAnticlockwise (_ : StepperMotorDrv) : StepperMotorDrv :=
  ⟨.anticlockwise, true⟩

def stepperMotorDrvDriveClockwise (_ : StepperMotorDrv) : StepperMotorDrv := ⟨.clockwise, true⟩

def stepperMotorDrvDriveStop (drv : StepperMotorDrv) : StepperMotorDrv :=
  { drv with pwmEnabled := false }

inductive Drive
  | anticlockwise | clockwise | stop
  deriving DecidableEq, Repr

def StepperMotorDrv.drive (drv : StepperMotorDrv) : Drive → StepperMotorDrv
  | .anticlockwise => stepperMotorDrvDriveAnticlockwise drv
  | .clockwise => stepperMotorDrvDriveClockwise drv
  | .stop => stepperMotorDrvDriveStop drv

end ClosedLoopStepper.StepperMotor
