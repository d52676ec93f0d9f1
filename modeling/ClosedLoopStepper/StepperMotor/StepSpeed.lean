import ClosedLoopStepper.StepperMotor.StepperMotorDrv
import Mathlib.Data.List.Basic
import Mathlib.Algebra.Group.Nat.Even

/-! The initialisation of the stepper motor driver, which turns the step speed into a PWM
period. The clock is divided down, then divided by the speed into the wrap of the counter,
which is halved into the compare level; of the speeds only the slow end is refused. -/
namespace ClosedLoopStepper.StepperMotor

def systemConfigCpuCoreClockFreqKhz : Nat := 133000
def stepperMotorDrvPwmClockFreqDivider : Nat := 255

def stepperMotorDrvPinEnable : Nat := 12
def stepperMotorDrvPinM0 : Nat := 11
def stepperMotorDrvPinM1 : Nat := 10
def stepperMotorDrvPinM2 : Nat := 9
def stepperMotorDrvPinReset : Nat := 7
def stepperMotorDrvPinSleep : Nat := 6
def stepperMotorDrvPinStep : Nat := 5
def stepperMotorDrvPinDir : Nat := 4

inductive StepperMotorDrvOperationStatus
  | ok | invalidStepMode | unsupportedStepSpeed
  deriving DecidableEq, Repr

inductive StepperMotorDrvStepMode
  | full | half | mode1_4 | mode1_8 | mode1_16 | mode1_32
  deriving DecidableEq, Repr

structure StepperMotorDrvInitParams where
  stepMode : StepperMotorDrvStepMode
  stepSpeed : UInt32
  deriving DecidableEq, Repr

/-- The enumerators, whose bits are the mode pins. -/
def StepperMotorDrvStepMode.toNat : StepperMotorDrvStepMode → Nat
  | .full => 0
  | .half => 1
  | .mode1_4 => 2
  | .mode1_8 => 3
  | .mode1_16 => 4
  | .mode1_32 => 5

def stepperMotorDrvPinStatus (mode : StepperMotorDrvStepMode) (mask : Nat) : Bool :=
  (mode.toNat &&& mask) != 0

def stepperMotorDrvM0PinStatus (mode : StepperMotorDrvStepMode) : Bool :=
  stepperMotorDrvPinStatus mode (1 <<< 0)

def stepperMotorDrvM1PinStatus (mode : StepperMotorDrvStepMode) : Bool :=
  stepperMotorDrvPinStatus mode (1 <<< 1)

def stepperMotorDrvM2PinStatus (mode : StepperMotorDrvStepMode) : Bool :=
  stepperMotorDrvPinStatus mode (1 <<< 2)

def StepperMotorDrvDirPinStatus.toBool : StepperMotorDrvDirPinStatus → Bool
  | .anticlockwise => false
  | .clockwise => true

/-- The frequency that the macros and the initialisation divide further; the clock is a
macro too, and the arithmetic on it is that of int. -/
def pwmClockFreq (cpuCoreClockFreqKhz : Nat) : Nat :=
  cpuCoreClockFreqKhz * 1000 / stepperMotorDrvPwmClockFreqDivider

def stepperMotorDrvMinStepSpeed (cpuCoreClockFreqKhz : Nat) : Nat :=
  pwmClockFreq cpuCoreClockFreqKhz / 0xFFFF + 1

/-- The calls into the hardware layer. The configuration given to `pwm_init` is the default
one but for its divider. -/
inductive HardwareCall
  | gpioInit (pin : Nat)
  | gpioSetDirOut (pin : Nat)
  | gpioPut (pin : Nat) (value : Bool)
  | gpioSetFunctionPwm (pin : Nat)
  | pwmInit (sliceNum : Nat) (clkdiv : Nat) (start : Bool)
  | pwmSetWrap (sliceNum : Nat) (wrap : UInt16)
  | pwmSetGpioLevel (pin : Nat) (level : UInt16)
  deriving DecidableEq, Repr

def requiredWrap (cpuCoreClockFreqKhz : Nat) (stepSpeed : UInt32) : UInt16 :=
  (UInt32.ofNat (pwmClockFreq cpuCoreClockFreqKhz) / stepSpeed).toUInt16

section Calls
-- which slice drives a pin is for the hardware layer to say
variable (pwmGpioToSliceNum : Nat → Nat)

def stepperMotorDrvSetup (stepMode : StepperMotorDrvStepMode) (requiredWrap : UInt16) :
    List HardwareCall :=
  [.gpioInit stepperMotorDrvPinEnable,
    .gpioInit stepperMotorDrvPinM0,
    .gpioInit stepperMotorDrvPinM1,
    .gpioInit stepperMotorDrvPinM2,
    .gpioInit stepperMotorDrvPinReset,
    .gpioInit stepperMotorDrvPinSleep,
    .gpioInit stepperMotorDrvPinDir,
    .gpioSetDirOut stepperMotorDrvPinEnable,
    .gpioSetDirOut stepperMotorDrvPinM0,
    .gpioSetDirOut stepperMotorDrvPinM1,
    .gpioSetDirOut stepperMotorDrvPinM2,
    .gpioSetDirOut stepperMotorDrvPinReset,
    .gpioSetDirOut stepperMotorDrvPinSleep,
    .gpioSetDirOut stepperMotorDrvPinDir,
    .gpioPut stepperMotorDrvPinEnable false,
    .gpioPut stepperMotorDrvPinM0 (stepperMotorDrvM0PinStatus stepMode),
    .gpioPut stepperMotorDrvPinM1 (stepperMotorDrvM1PinStatus stepMode),
    .gpioPut stepperMotorDrvPinM2 (stepperMotorDrvM2PinStatus stepMode),
    .gpioPut stepperMotorDrvPinReset true,
    .gpioPut stepperMotorDrvPinSleep true,
    .gpioPut stepperMotorDrvPinDir StepperMotorDrvDirPinStatus.anticlockwise.toBool,
    .gpioInit stepperMotorDrvPinStep,
    .gpioSetFunctionPwm stepperMotorDrvPinStep,
    .pwmInit (pwmGpioToSliceNum stepperMotorDrvPinStep) stepperMotorDrvPwmClockFreqDivider false,
    .pwmSetWrap (pwmGpioToSliceNum stepperMotorDrvPinStep) requiredWrap,
    .pwmSetGpioLevel stepperMotorDrvPinStep (requiredWrap / 2)]

/-- The answer and the calls that are made. Where the parameters are accepted the function
ends without a return statement, so there is no answer to read. -/
def stepperMotorDrvInit (cpuCoreClockFreqKhz : Nat) (initParams : StepperMotorDrvInitParams) :
    Option StepperMotorDrvOperationStatus × List HardwareCall :=
  match initParams.stepMode with
  | .full | .half | .mode1_4 | .mode1_8 | .mode1_16 =>
    if UInt32.ofNat (stepperMotorDrvMinStepSpeed cpuCoreClockFreqKhz) ≤ initParams.stepSpeed then
      (none, stepperMotorDrvSetup pwmGpioToSliceNum initParams.stepMode
        (requiredWrap cpuCoreClockFreqKhz initParams.stepSpeed))
    else (some .unsupportedStepSpeed, [])
  | .mode1_32 => (some .invalidStepMode, [])

/-- What the calls do to the two pins that the drive functions set. -/
def StepperMotorDrv.call (drv : StepperMotorDrv) : HardwareCall → StepperMotorDrv
  | .gpioPut pin value =>
    if pin = stepperMotorDrvPinDir then
      { drv with dirPin := if value then .clockwise else .anticlockwise }
    else drv
  | .pwmInit sliceNum _ start =>
    if sliceNum = pwmGpioToSliceNum stepperMotorDrvPinStep then { drv with pwmEnabled := start }
    else drv
  | _ => drv

structure PwmSlice where
  clkdiv : Nat
  wrap : UInt16
  level : UInt16
  deriving DecidableEq, Repr

def PwmSlice.call (slice : PwmSlice) : HardwareCall → PwmSlice
  | .pwmInit sliceNum clkdiv _ =>
    if sliceNum = pwmGpioToSliceNum stepperMotorDrvPinStep then ⟨clkdiv, 0xFFFF, 0⟩ else slice
  | .pwmSetWrap sliceNum wrap =>
    if sliceNum = pwmGpioToSliceNum stepperMotorDrvPinStep then { slice with wrap } else slice
  | .pwmSetGpioLevel pin level =>
    if pin = stepperMotorDrvPinStep then { slice with level } else slice
  | _ => slice

end Calls

namespace PwmSlice
variable (slice : PwmSlice)

def high (counter : Nat) : Bool := decide (counter < slice.level.toNat)

/-- The counter runs up to the wrap and starts over. -/
def rising (counter : Nat) : Bool :=
  slice.high counter && !slice.high (if counter = 0 then slice.wrap.toNat else counter - 1)

def risingEdges : Nat := (List.range (slice.wrap.toNat + 1)).countP slice.rising

/-- Within a period the output only falls, so it rises when the counter starts over if at all. -/
theorem risingEdges_eq :
    slice.risingEdges = if 0 < slice.level ∧ slice.level ≤ slice.wrap then 1 else 0 := by
  have hlater : ((List.range slice.wrap.toNat).map Nat.succ).countP slice.rising = 0 := by
    rw [List.countP_eq_zero]
    intro counter hin
    obtain ⟨before, _, rfl⟩ := List.mem_map.mp hin
    simp only [rising, high, Nat.succ_ne_zero, if_false, Nat.succ_eq_add_one,
      Nat.add_sub_cancel, Bool.and_eq_true, Bool.not_eq_true', decide_eq_true_eq,
      decide_eq_false_iff_not]
    omega
  have hstart : slice.rising 0 = decide (0 < slice.level ∧ slice.level ≤ slice.wrap) := by
    rw [Bool.eq_iff_iff]
    simp [rising, high, UInt16.lt_iff_toNat_lt, UInt16.le_iff_toNat_le]
  rw [risingEdges, List.range_succ_eq_map, List.countP_cons, hlater, hstart]
  simp

end PwmSlice

variable {pwmGpioToSliceNum : Nat → Nat}

/-- The setup leaves the pins as the firmware's start state has them. -/
theorem setup_initial (stepMode : StepperMotorDrvStepMode) (wrap : UInt16)
    (drv : StepperMotorDrv) :
    (stepperMotorDrvSetup pwmGpioToSliceNum stepMode wrap).foldl
      (StepperMotorDrv.call pwmGpioToSliceNum) drv = .initial := by
  simp only [stepperMotorDrvSetup, List.foldl_cons, List.foldl_nil, StepperMotorDrv.call, if_true]
  rfl

theorem setup_slice (stepMode : StepperMotorDrvStepMode) (wrap : UInt16) (slice : PwmSlice) :
    (stepperMotorDrvSetup pwmGpioToSliceNum stepMode wrap).foldl
      (PwmSlice.call pwmGpioToSliceNum) slice =
      ⟨stepperMotorDrvPwmClockFreqDivider, wrap, wrap / 2⟩ := by
  simp [stepperMotorDrvSetup, PwmSlice.call]

section Accepted
variable {cpuCoreClockFreqKhz : Nat} {initParams : StepperMotorDrvInitParams}

/-- A supported mode is refused for its speed only. -/
theorem stepperMotorDrvInit_supported (hmode : initParams.stepMode ≠ .mode1_32) :
    stepperMotorDrvInit pwmGpioToSliceNum cpuCoreClockFreqKhz initParams =
      if UInt32.ofNat (stepperMotorDrvMinStepSpeed cpuCoreClockFreqKhz) ≤ initParams.stepSpeed then
        (none, stepperMotorDrvSetup pwmGpioToSliceNum initParams.stepMode
          (requiredWrap cpuCoreClockFreqKhz initParams.stepSpeed))
      else (some .unsupportedStepSpeed, []) := by
  unfold stepperMotorDrvInit
  cases hm : initParams.stepMode with
  | full => rfl
  | half => rfl
  | mode1_4 => rfl
  | mode1_8 => rfl
  | mode1_16 => rfl
  | mode1_32 => exact absurd hm hmode

/-- Nothing is set up for parameters that are answered. -/
theorem init_refused {status : StepperMotorDrvOperationStatus}
    (h : (stepperMotorDrvInit pwmGpioToSliceNum cpuCoreClockFreqKhz initParams).1 = some status) :
    (stepperMotorDrvInit pwmGpioToSliceNum cpuCoreClockFreqKhz initParams).2 = [] := by
  by_cases hmode : initParams.stepMode = .mode1_32
  · simp [stepperMotorDrvInit, hmode]
  · rw [stepperMotorDrvInit_supported hmode] at h ⊢
    split at h
    · cases h
    · rw [if_neg ‹_›]

variable (hmode : initParams.stepMode ≠ .mode1_32)
  (haccepted : (stepperMotorDrvInit pwmGpioToSliceNum cpuCoreClockFreqKhz initParams).1 ≠
    some .unsupportedStepSpeed)
include hmode haccepted

private theorem speed_accepted :
    UInt32.ofNat (stepperMotorDrvMinStepSpeed cpuCoreClockFreqKhz) ≤ initParams.stepSpeed := by
  by_contra hslow
  rw [stepperMotorDrvInit_supported hmode, if_neg hslow] at haccepted
  exact haccepted rfl

private theorem init_accepted :
    (stepperMotorDrvInit pwmGpioToSliceNum cpuCoreClockFreqKhz initParams).2 =
      stepperMotorDrvSetup pwmGpioToSliceNum initParams.stepMode
        (requiredWrap cpuCoreClockFreqKhz initParams.stepSpeed) := by
  rw [stepperMotorDrvInit_supported hmode, if_pos (speed_accepted hmode haccepted)]

end Accepted

section Divisions
variable {q m s : Nat}

private theorem div_le_of_min_le (hm : 0 < m) (h : q / m + 1 ≤ s) : q / s ≤ m := by
  have hlt : q < s * m := (Nat.div_lt_iff_lt_mul hm).mp h
  exact Nat.div_le_of_le_mul (Nat.le_of_lt hlt)

private theorem le_div_of_lt_min (hm : 0 < m) (h : s < q / m + 1) : s = 0 ∨ m ≤ q / s := by
  rcases Nat.eq_zero_or_pos s with hzero | hpos
  · exact Or.inl hzero
  · right
    have hle : s * m ≤ q := (Nat.le_div_iff_mul_le hm).mp (Nat.le_of_lt_succ h)
    rw [Nat.le_div_iff_mul_le hpos, Nat.mul_comm]
    exact hle

end Divisions

section Clock
variable {cpuCoreClockFreqKhz : Nat} (hint : cpuCoreClockFreqKhz * 1000 ≤ 2 ^ 31 - 1)
include hint

private theorem pwmClockFreq_lt : pwmClockFreq cpuCoreClockFreqKhz < 2 ^ 31 := by
  have hle : pwmClockFreq cpuCoreClockFreqKhz ≤ cpuCoreClockFreqKhz * 1000 := Nat.div_le_self _ _
  omega

private theorem minStepSpeed_le_iff (stepSpeed : UInt32) :
    UInt32.ofNat (stepperMotorDrvMinStepSpeed cpuCoreClockFreqKhz) ≤ stepSpeed ↔
      pwmClockFreq cpuCoreClockFreqKhz / 0xFFFF + 1 ≤ stepSpeed.toNat := by
  have hlt := pwmClockFreq_lt hint
  have hle : pwmClockFreq cpuCoreClockFreqKhz / 0xFFFF ≤ pwmClockFreq cpuCoreClockFreqKhz :=
    Nat.div_le_self _ _
  rw [UInt32.le_iff_toNat_le, UInt32.toNat_ofNat', stepperMotorDrvMinStepSpeed,
    Nat.mod_eq_of_lt (by omega)]

private theorem requiredWrap_toNat (stepSpeed : UInt32) :
    (requiredWrap cpuCoreClockFreqKhz stepSpeed).toNat =
      pwmClockFreq cpuCoreClockFreqKhz / stepSpeed.toNat % 2 ^ 16 := by
  have hlt := pwmClockFreq_lt hint
  have hfreq : (UInt32.ofNat (pwmClockFreq cpuCoreClockFreqKhz)).toNat =
      pwmClockFreq cpuCoreClockFreqKhz := by
    rw [UInt32.toNat_ofNat', Nat.mod_eq_of_lt (by omega)]
  rw [requiredWrap, UInt32.toNat_toUInt16, UInt32.toNat_div, hfreq]

/-- A speed that passes the guard is stored in full. -/
theorem requiredWrap_accepted {stepSpeed : UInt32}
    (h : UInt32.ofNat (stepperMotorDrvMinStepSpeed cpuCoreClockFreqKhz) ≤ stepSpeed) :
    stepSpeed ≠ 0 ∧ pwmClockFreq cpuCoreClockFreqKhz / stepSpeed.toNat ≤ 0xFFFF ∧
      (requiredWrap cpuCoreClockFreqKhz stepSpeed).toNat =
        pwmClockFreq cpuCoreClockFreqKhz / stepSpeed.toNat := by
  rw [minStepSpeed_le_iff hint] at h
  have hle := div_le_of_min_le (by decide) h
  refine ⟨?_, hle, ?_⟩
  · rintro rfl
    exact absurd h (Nat.not_succ_le_zero _)
  · rw [requiredWrap_toNat hint, Nat.mod_eq_of_lt (by omega)]

variable {initParams : StepperMotorDrvInitParams} (hmode : initParams.stepMode ≠ .mode1_32)
  (haccepted : (stepperMotorDrvInit pwmGpioToSliceNum cpuCoreClockFreqKhz initParams).1 ≠
    some .unsupportedStepSpeed)
include hmode haccepted

/-- What an accepted initialisation programs the slice to, whatever it was before. -/
theorem init_slice (slice : PwmSlice) :
    let next := (stepperMotorDrvInit pwmGpioToSliceNum cpuCoreClockFreqKhz initParams).2.foldl
      (PwmSlice.call pwmGpioToSliceNum) slice
    next.wrap.toNat = pwmClockFreq cpuCoreClockFreqKhz / initParams.stepSpeed.toNat ∧
      next.level = next.wrap / 2 := by
  intro next
  have hspeed := speed_accepted hmode haccepted
  have hnext : next = ⟨stepperMotorDrvPwmClockFreqDivider,
      requiredWrap cpuCoreClockFreqKhz initParams.stepSpeed,
      requiredWrap cpuCoreClockFreqKhz initParams.stepSpeed / 2⟩ := by
    simp only [next]
    rw [init_accepted hmode haccepted, setup_slice]
  rw [hnext]
  exact ⟨(requiredWrap_accepted hint hspeed).2.2, rfl⟩

/-- The step pin steps once in a period exactly when the period has two counts to halve. -/
theorem init_steps_iff (slice : PwmSlice) :
    let next := (stepperMotorDrvInit pwmGpioToSliceNum cpuCoreClockFreqKhz initParams).2.foldl
      (PwmSlice.call pwmGpioToSliceNum) slice
    0 < next.level ∧ next.level ≤ next.wrap ∧ next.risingEdges = 1 ↔
      2 ≤ pwmClockFreq cpuCoreClockFreqKhz / initParams.stepSpeed.toNat := by
  intro next
  obtain ⟨hwrap, hlevel⟩ := init_slice hint hmode haccepted slice
  change next.wrap.toNat = _ at hwrap
  change next.level = next.wrap / 2 at hlevel
  have hhalf : next.level.toNat = next.wrap.toNat / 2 := by
    rw [hlevel, UInt16.toNat_div]
    rfl
  rw [next.risingEdges_eq, ← hwrap]
  constructor
  · rintro ⟨hpos, _, _⟩
    rw [UInt16.lt_iff_toNat_lt, UInt16.toNat_zero] at hpos
    omega
  · intro htwo
    have hpos : 0 < next.level := by
      rw [UInt16.lt_iff_toNat_lt, UInt16.toNat_zero]
      omega
    have hle : next.level ≤ next.wrap := by
      rw [UInt16.le_iff_toNat_le]
      omega
    exact ⟨hpos, hle, if_pos ⟨hpos, hle⟩⟩

end Clock

/-- The guard is sound for every clock that the macros can be computed for: a speed that
passes is not zero and its quotient fits the wrap it is programmed to, and a speed that is
refused is zero or has a quotient that fills it. -/
theorem minStepSpeed_sound (cpuCoreClockFreqKhz : Nat)
    (hint : cpuCoreClockFreqKhz * 1000 ≤ 2 ^ 31 - 1) (stepSpeed : UInt32) :
    (UInt32.ofNat (stepperMotorDrvMinStepSpeed cpuCoreClockFreqKhz) ≤ stepSpeed →
      stepSpeed ≠ 0 ∧ pwmClockFreq cpuCoreClockFreqKhz / stepSpeed.toNat ≤ 65535 ∧
        (requiredWrap cpuCoreClockFreqKhz stepSpeed).toNat =
          pwmClockFreq cpuCoreClockFreqKhz / stepSpeed.toNat) ∧
      (¬ UInt32.ofNat (stepperMotorDrvMinStepSpeed cpuCoreClockFreqKhz) ≤ stepSpeed →
        stepSpeed = 0 ∨ 65535 ≤ pwmClockFreq cpuCoreClockFreqKhz / stepSpeed.toNat) := by
  constructor
  · intro hpasses
    exact requiredWrap_accepted hint hpasses
  · intro hrefused
    rw [minStepSpeed_le_iff hint, Nat.not_le] at hrefused
    refine (le_div_of_lt_min (by decide) hrefused).imp_left ?_
    intro hzero
    exact UInt32.toNat_inj.mp hzero

/-- Speeds on both sides of the guard at the configured clock. -/
theorem minStepSpeed_sound_configured :
    ((8 : UInt32) ≠ 0 ∧ pwmClockFreq 133000 / 8 ≤ 65535 ∧
      (requiredWrap 133000 8).toNat = pwmClockFreq 133000 / 8) ∧
      ((7 : UInt32) = 0 ∨ 65535 ≤ pwmClockFreq 133000 / 7) :=
  ⟨(minStepSpeed_sound 133000 (by decide) 8).1 (by decide),
    (minStepSpeed_sound 133000 (by decide) 7).2 (by decide)⟩

/-- At the configured clock an accepted speed makes the motor step exactly up to half the
PWM clock; above that the compare level is zero and the step pin stays low. -/
theorem accepted_steps_iff (pwmGpioToSliceNum : Nat → Nat)
    (initParams : StepperMotorDrvInitParams) (hmode : initParams.stepMode ≠ .mode1_32)
    (haccepted :
      (stepperMotorDrvInit pwmGpioToSliceNum systemConfigCpuCoreClockFreqKhz initParams).1 ≠
        some .unsupportedStepSpeed) (slice : PwmSlice) :
    let init := stepperMotorDrvInit pwmGpioToSliceNum systemConfigCpuCoreClockFreqKhz initParams
    let next := init.2.foldl (PwmSlice.call pwmGpioToSliceNum) slice
    0 < next.level ∧ next.level ≤ next.wrap ∧ next.risingEdges = 1 ↔
      initParams.stepSpeed.toNat ≤ 260784 := by
  intro init next
  have hint : systemConfigCpuCoreClockFreqKhz * 1000 ≤ 2 ^ 31 - 1 := by decide
  have hfreq : pwmClockFreq systemConfigCpuCoreClockFreqKhz = 521568 := by decide
  have hpos : 0 < initParams.stepSpeed.toNat := by
    have hspeed := (minStepSpeed_le_iff hint _).mp (speed_accepted hmode haccepted)
    omega
  refine (init_steps_iff hint hmode haccepted slice).trans ?_
  rw [hfreq, Nat.le_div_iff_mul_le hpos]
  omega

/-- The speed that the application asks for. -/
theorem accepted_steps_application :
    let pwmGpioToSliceNum (pin : Nat) := pin / 2 % 8
    let init := stepperMotorDrvInit pwmGpioToSliceNum systemConfigCpuCoreClockFreqKhz
      ⟨.mode1_16, 2000⟩
    let next := init.2.foldl (PwmSlice.call pwmGpioToSliceNum) ⟨0, 0, 0⟩
    0 < next.level ∧ next.level ≤ next.wrap ∧ next.risingEdges = 1 ↔
      (2000 : UInt32).toNat ≤ 260784 :=
  accepted_steps_iff _ ⟨.mode1_16, 2000⟩ (by decide) (by decide) ⟨0, 0, 0⟩

/-- A speed that is accepted and leaves the step pin low for good. -/
theorem accepted_speed_without_steps :
    let pwmGpioToSliceNum (pin : Nat) := pin / 2 % 8
    let init := stepperMotorDrvInit pwmGpioToSliceNum systemConfigCpuCoreClockFreqKhz
      ⟨.mode1_16, 300000⟩
    let next := init.2.foldl (PwmSlice.call pwmGpioToSliceNum) ⟨0, 0, 0⟩
    init.1 ≠ some .unsupportedStepSpeed ∧
      ¬ (0 < next.level ∧ next.level ≤ next.wrap ∧ next.risingEdges = 1) ∧
      next.wrap = 1 ∧ next.level = 0 ∧ next.risingEdges = 0 := by
  decide

end ClosedLoopStepper.StepperMotor
