import ClosedLoopStepper.Device.Turns

/-! Whether the motor is driven past its target. The driven shaft moves one way, so the
requested position is passed exactly when a counted edge arrives on it before the pending
step event has stopped the motor. -/
namespace ClosedLoopStepper.Device
open Foundations Scheduler Ipc Encoder StepperMotor Application

namespace Controller

/-- A command with a valid position is in execution and the motor runs. -/
def Driven (c : Controller) : Prop :=
  c.state = .execution ∧ c.params.respStatus = .ok ∧ c.motorOn = true

def NearSide (c : Controller) : Prop :=
  match c.stepperMotor.dirPin with
  | .anticlockwise => c.position ≤ c.params.positionRequested
  | .clockwise => c.params.positionRequested ≤ c.position

def driveOn (c : Controller) : Nat :=
  match c.stepperMotor.dirPin with
  | .anticlockwise => encoderDrvIncrementEncoderPosition c.position
  | .clockwise => encoderDrvDecrementEncoderPosition c.position

/-- The environment: no home pulse comes while a command is in execution, and other than
by home pulses a running motor moves the encoder only its own way. -/
def MovesAsDriven (c : Controller) (i : Input) : Prop :=
  match i with
  | .pinTransition gpio eventMask _ _ =>
    (gpio = encoderDrvPinZHome ∧ eventMask = gpioIrqEdgeRise ∧ c.state ≠ .execution) ∨
      (¬ (gpio = encoderDrvPinZHome ∧ eventMask = gpioIrqEdgeRise) ∧
        (c.motorOn = true → (c.step i).position = c.position ∨ (c.step i).position = c.driveOn))
  | _ => True

/-- The condition: no counted edge finds the driven shaft on the requested position,
unless the position wraps there. -/
def StopsInTime (c : Controller) (i : Input) : Prop :=
  match i with
  | .pinTransition .. =>
    c.Driven → c.position = c.params.positionRequested → (c.step i).position ≠ c.position →
      c.position = match c.stepperMotor.dirPin with
        | .anticlockwise => encoderDrvEncoderPositionHigherBound
        | .clockwise => encoderDrvEncoderPositionLowerBound
  | _ => True

instance (c : Controller) : Decidable c.Driven := inferInstanceAs (Decidable (_ ∧ _))

instance (c : Controller) : Decidable c.NearSide := by
  unfold NearSide
  cases c.stepperMotor.dirPin <;> exact inferInstance

instance (c : Controller) : ∀ i, Decidable (c.MovesAsDriven i)
  | .pinTransition .. => inferInstanceAs (Decidable (_ ∨ _))
  | .receivedByte _ => inferInstanceAs (Decidable True)
  | .execute => inferInstanceAs (Decidable True)

instance (c : Controller) : ∀ i, Decidable (c.StopsInTime i)
  | .pinTransition .. => inferInstanceAs (Decidable (_ → _))
  | .receivedByte _ => inferInstanceAs (Decidable True)
  | .execute => inferInstanceAs (Decidable True)

/-- On the way to a target, the command in execution is one that READY took. -/
structure Guided (c : Controller) : Prop where
  saved : c.Saved
  position_lt : c.position < 180
  ready_off : c.RestsReady
  driven : c.state = .execution → c.motorOn = true →
    c.params.respStatus = .ok ∧ c.params.positionRequested < 180

structure OnCourse (c : Controller) : Prop extends Guided c where
  near : c.Driven → c.NearSide

variable {c : Controller}

theorem start_guided : start.Guided := ⟨rfl, by decide, start_restsReady, nofun⟩

private theorem start_onCourse : start.OnCourse := ⟨start_guided, by decide⟩

private theorem turn_guided {eventData : UserApplicationStateMachineEventData} {rest : List Task}
    {next : Controller} (h : c.Guided) (hturn : Turn c eventData rest next) : next.Guided := by
  have hsaved := hturn.saved h.saved
  have hready := hturn.restsReady h.ready_off
  have hvalid {cmd} (hmoves : ¬ Immediate cmd c.position) :
      commandStatus cmd = .ok ∧ requestedPosition cmd < 180 := by
    rw [Immediate, not_or, Bool.not_eq_false] at hmoves
    exact ⟨by rw [commandStatus, hmoves.1]; rfl, (valid_iff _).mp hmoves.1⟩
  cases hturn with
  | calibrate hstate =>
    exact ⟨hsaved, h.position_lt, hready, fun hexecution => by cases hstate.symm.trans hexecution⟩
  | home =>
    exact ⟨hsaved, h.position_lt, hready, fun hexecution => by cases hexecution⟩
  | finish =>
    exact ⟨hsaved, h.position_lt, hready, fun hexecution => by cases hexecution⟩
  | immediate haccept =>
    have hoff := h.ready_off haccept.1
    exact ⟨hsaved, h.position_lt, hready,
      fun _ hon => absurd (hoff.symm.trans hon) Bool.false_ne_true⟩
  | anticlockwise _ hmoves => exact ⟨hsaved, h.position_lt, hready, fun _ _ => hvalid hmoves⟩
  | clockwise _ hmoves => exact ⟨hsaved, h.position_lt, hready, fun _ _ => hvalid hmoves⟩
  | ignore => exact ⟨hsaved, h.position_lt, hready, h.driven⟩

theorem step_guided (h : c.Guided) (i : Input) : (c.step i).Guided := by
  cases i with
  | receivedByte b => exact ⟨h.saved, h.position_lt, h.ready_off, h.driven⟩
  | pinTransition gpio eventMask levelA levelB =>
    exact ⟨h.saved, callback_position_lt _ h.position_lt gpio eventMask levelA levelB,
      h.ready_off, h.driven⟩
  | execute =>
    change c.execute.Guided
    rcases execute_cases h.saved with ⟨_, he⟩ | ⟨params, rest, _, he⟩ | ⟨eventData, rest, _, hturn⟩
    · rwa [he]
    · rw [he]
      exact ⟨h.saved, h.position_lt, h.ready_off, h.driven⟩
    · exact turn_guided h hturn

private theorem driveOn_near (next : Controller) (hp : c.position < 180)
    (hr : c.params.positionRequested < 180) (hnear : c.NearSide)
    (hmotor : next.stepperMotor = c.stepperMotor) (hparams : next.params = c.params)
    (hmove : next.position = c.driveOn) :
    next.NearSide ↔ (c.position = c.params.positionRequested →
      c.position = match c.stepperMotor.dirPin with
        | .anticlockwise => encoderDrvEncoderPositionHigherBound
        | .clockwise => encoderDrvEncoderPositionLowerBound) := by
  unfold NearSide at hnear ⊢
  unfold driveOn at hmove
  rw [hmotor, hparams, hmove]
  cases hdir : c.stepperMotor.dirPin with
  | anticlockwise =>
    rw [hdir] at hnear
    dsimp only at hnear ⊢
    rw [increment_eq hp, show encoderDrvEncoderPositionHigherBound = 179 from rfl]
    omega
  | clockwise =>
    rw [hdir] at hnear
    dsimp only at hnear ⊢
    rw [decrement_eq hp, show encoderDrvEncoderPositionLowerBound = 0 from rfl]
    omega

/-- A turn of the loop starts motion towards the target only, and stops it before the
application is ready again. -/
private theorem turn_near {eventData : UserApplicationStateMachineEventData} {rest : List Task}
    {next : Controller} (h : c.OnCourse) (hturn : Turn c eventData rest next)
    (hd : next.Driven) : next.NearSide := by
  cases hturn with
  | calibrate hstate => cases hstate.symm.trans hd.1
  | home => cases hd.1
  | finish => cases hd.1
  | immediate haccept =>
    exact absurd ((h.ready_off haccept.1).symm.trans hd.2.2) Bool.false_ne_true
  | anticlockwise _ _ hgt => exact Nat.le_of_lt hgt
  | clockwise _ _ hlt => exact Nat.le_of_lt hlt
  | ignore => exact h.near hd

private theorem execute_near (h : c.OnCourse) : c.execute.Driven → c.execute.NearSide := by
  rcases execute_cases h.saved with ⟨_, he⟩ | ⟨params, rest, _, he⟩ | ⟨eventData, rest, _, hturn⟩
  · rw [he]
    exact h.near
  · rw [he]
    exact h.near
  · exact turn_near h hturn

/-- A pin interrupt keeps the course exactly when it comes in time. -/
theorem pinTransition_near (h : c.OnCourse) {gpio eventMask : Nat} {levelA levelB : Bool}
    (henv : c.MovesAsDriven (.pinTransition gpio eventMask levelA levelB)) (hd : c.Driven) :
    (c.pinTransition gpio eventMask levelA levelB).NearSide ↔
      c.StopsInTime (.pinTransition gpio eventMask levelA levelB) := by
  have hnear := h.near hd
  have hmove : (c.step (.pinTransition gpio eventMask levelA levelB)).position = c.position ∨
      (c.step (.pinTransition gpio eventMask levelA levelB)).position = c.driveOn := by
    rcases henv with ⟨_, _, hstate⟩ | ⟨_, hmove⟩
    · exact absurd hd.1 hstate
    · exact hmove hd.2.2
  change (c.pinTransition gpio eventMask levelA levelB).position = c.position ∨
    (c.pinTransition gpio eventMask levelA levelB).position = c.driveOn at hmove
  by_cases hstay : (c.pinTransition gpio eventMask levelA levelB).position = c.position
  · refine iff_of_true ?_ fun _ _ hne => absurd hstay hne
    unfold NearSide at hnear ⊢
    rw [hstay]
    exact hnear
  · rw [driveOn_near (c.pinTransition gpio eventMask levelA levelB) h.position_lt
      (h.driven hd.1 hd.2.2).2 hnear rfl rfl (hmove.resolve_left hstay)]
    exact ⟨fun hs _ heq _ => hs heq, fun hs heq => hs hd heq hstay⟩

private theorem step_onCourse (h : c.OnCourse) (i : Input) (henv : c.MovesAsDriven i)
    (hs : c.StopsInTime i) : (c.step i).OnCourse := by
  refine ⟨step_guided h.toGuided i, ?_⟩
  cases i with
  | receivedByte b => exact h.near
  | pinTransition gpio eventMask levelA levelB =>
    exact fun hd => (pinTransition_near h henv hd).mpr hs
  | execute => exact execute_near h

private theorem stopsInTime_of_near (h : c.OnCourse) (i : Input) (henv : c.MovesAsDriven i)
    (hnear : (c.step i).Driven → (c.step i).NearSide) : c.StopsInTime i := by
  cases i with
  | receivedByte b => trivial
  | pinTransition gpio eventMask levelA levelB =>
    exact fun hd => (pinTransition_near h henv hd).mp (hnear hd) hd
  | execute => trivial

end Controller

/-- While the encoder moves as driven and no home pulse comes in execution, the motor is
never past its target exactly in the runs where no counted edge finds the driven shaft on
the requested position, but for the wrap. -/
theorem never_past_target_iff (inputs : List Input)
    (h : Machine.Meets Firmware.step (fun fw i => fw.controller.MovesAsDriven i) start inputs) :
    Machine.Always Firmware.step
        (fun fw => fw.controller.Driven → fw.controller.NearSide) start inputs ↔
      Machine.Meets Firmware.step (fun fw i => fw.controller.StopsInTime i) start inputs := by
  rw [meets_controller] at h
  rw [meets_controller, always_controller (P := fun c => c.Driven → c.NearSide)]
  exact Machine.always_iff_meets h Controller.start_onCourse (fun c hc => hc.near)
    (fun c i hc henv hs => Controller.step_onCourse hc i henv hs)
    fun c i hc henv hnear => Controller.stopsInTime_of_near hc i henv hnear

def driven : List Input :=
  [.execute, .pinTransition encoderDrvPinZHome gpioIrqEdgeRise false false, .execute] ++
    [0xA5, 0x5A, 3, 0, 2, 0, 2].map .receivedByte ++ [.execute, .execute]

def cycle : List Input :=
  [.pinTransition encoderDrvPinAAnticlockwise gpioIrqEdgeRise true false,
    .pinTransition encoderDrvPinBClockwise gpioIrqEdgeRise true true]

/-- The loop runs after every cycle; the first one after homing is not counted. -/
theorem stopped_at_target :
    Machine.Always Firmware.step (fun fw => fw.controller.Driven → fw.controller.NearSide) start
      (driven ++ cycle ++ [.execute] ++ cycle ++ [.execute]) :=
  (never_past_target_iff _ (by decide)).mpr (by decide)

/-- The loop is late: the edges of three cycles are served before the step events. -/
theorem late_loop_overshoots :
    let inputs := driven ++ cycle ++ cycle ++ cycle
    Machine.Meets Firmware.step (fun fw i => fw.controller.MovesAsDriven i) start inputs ∧
      (Machine.run Firmware.step start inputs).controller.Driven ∧
      ¬ (Machine.run Firmware.step start inputs).controller.NearSide := by
  decide

end ClosedLoopStepper.Device
