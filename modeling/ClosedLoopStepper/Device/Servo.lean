import ClosedLoopStepper.Device.Recovery
import ClosedLoopStepper.Encoder.Phases

/-! The firmware and the shaft that its motor turns, by quarters of a cycle and with every
edge that the encoder shows, from power-on at any angle. The home pulse ends the calibration,
and from then on each command leaves the shaft in the cycle that its angle names. -/
namespace ClosedLoopStepper.Device
open Foundations Foundations.Framing Common Scheduler Ipc Encoder StepperMotor Application

def direction : StepperMotorDrvDirPinStatus → Direction
  | .anticlockwise => .anticlockwise
  | .clockwise => .clockwise

def pinInput (i : PinInterrupt) : Input := .pinTransition i.gpio i.eventMask i.levelA i.levelB

private theorem countedEdge_eq (dir : StepperMotorDrvDirPinStatus) :
    countedEdge dir = pinInput (direction dir).first := by cases dir <;> rfl

structure Servo where
  firmware : Firmware (SchedulerParams Handler)
  quarter : Int

/-- What the commander makes of the bytes that are sent for a command, and where the shaft
is by then. -/
structure Reply where
  outcome : Option (Commander.SmcOutcome × List UInt8)
  quarter : Int
  deriving DecidableEq

namespace Servo

/-- The shaft turns by a quarter, and the queue is drained after its interrupts. -/
def turn (s : Servo) : Option Servo :=
  let quarter := s.quarter + (direction s.firmware.stepperMotor.dirPin).sign
  let served := Machine.run Firmware.step s.firmware
    ((quarterInterrupts s.quarter quarter).map pinInput)
  (served.schedulerExecute (3 * schedulerMaxQueueSize)).map fun firmware => ⟨firmware, quarter⟩

/-- It turns while the motor is enabled; `none` when the fuel does not suffice. -/
def run : Nat → Servo → Option Servo
  | 0, s => if s.firmware.stepperMotor.pwmEnabled then none else some s
  | fuel + 1, s => if s.firmware.stepperMotor.pwmEnabled then s.turn.bind (run fuel) else some s

/-- The first event is taken and the motor turns, from wherever the shaft is. -/
def powerOn (fuel : Nat) (quarter : Int) : Option Servo :=
  (start.schedulerExecute (3 * schedulerMaxQueueSize)).bind fun firmware =>
    run fuel ⟨firmware, quarter⟩

def command (s : Servo) (fuel angle : Nat) : Option (Servo × Reply) := do
  let bytes ← Commander.smcCommandBytes angle
  let taken ← (feedBytes s.firmware bytes).schedulerExecute (3 * schedulerMaxQueueSize)
  let last ← run fuel ⟨taken, s.quarter⟩
  return (last, ⟨(s.firmware.report last.firmware []).outcome, last.quarter⟩)

def commands (fuel : Nat) : Servo → List Nat → Option (Servo × List Reply)
  | s, [] => some (s, [])
  | s, angle :: rest => do
    let (next, reply) ← s.command fuel angle
    let (last, replies) ← commands fuel next rest
    return (last, reply :: replies)

end Servo

namespace Controller
variable {c : Controller} {quarter mark : Int} {target : Nat}

private theorem step_pinInput (c : Controller) (i : PinInterrupt) :
    c.step (pinInput i) = { c with
      encoder := (c.encoder.serve i).1
      tasks := c.offerAll (dispatchedTask (c.encoder.serve i).2).toList } := rfl

private theorem settle_encoder (c : Controller) : c.settle.encoder = c.encoder :=
  Machine.run_replicate_invariant (P := fun s : Controller => s.encoder = c.encoder) _ rfl
    fun _ hs => execute_frame.2.trans hs

def turned (c : Controller) (quarter : Int) : Controller :=
  (Machine.run step c ((quarterInterrupts quarter
    (quarter + (direction c.stepperMotor.dirPin).sign)).map pinInput)).settle

/-! The calibration. -/

structure Searching (c : Controller) : Prop where
  saved : c.Saved
  tasks_eq : c.tasks = []
  parser : Represents c.ipc (.hunting false)
  registered : c.Registered
  state_eq : c.state = .calibration
  motor_eq : c.stepperMotor = ⟨.clockwise, true⟩
  announced : c.encoder.encoderPositionUpdateNotification = false

private theorem settle_idle (h : c.tasks = []) : c.settle = c := settle_eq 0 (Nat.zero_le _) h

private theorem start_searching : start.settle.Searching := by
  have hturn : Turn start (.ofType .internal) [] start.execute := execute_turn start_saved rfl
  have hnext : start.execute = { start with
      tasks := []
      stepperMotor := ⟨.clockwise, true⟩
      log := start.log ++ [.drive .clockwise] } := by
    generalize start.execute = next at hturn
    cases hturn with
    | calibrate => rfl
    | home _ htype => cases htype
    | immediate haccept => cases haccept.1
    | anticlockwise haccept => cases haccept.1
    | clockwise haccept => cases haccept.1
    | finish hfinish => cases hfinish.1
    | ignore _ _ hcalibration => rcases hcalibration rfl with htype | htype <;> cases htype
  rw [settle_once (congrArg tasks hnext), hnext]
  exact ⟨start_saved, rfl, ⟨rfl, rfl⟩, ⟨rfl, rfl⟩, rfl, rfl, rfl⟩

/-- Edges are counted, and their step events ignored. -/
theorem Searching.edge (h : c.Searching) {d : Direction} {i : PinInterrupt}
    (hi : i = d.first ∨ i = d.second) : (c.step (pinInput i)).settle.Searching := by
  have hregistration : SameRegistration c.encoder (c.encoder.serve i).1 :=
    callback_registration c.encoder _ _ _ _
  have hnext : Searching { c with encoder := (c.encoder.serve i).1 } :=
    ⟨h.saved, h.tasks_eq, h.parser,
      ⟨hregistration.1.trans h.registered.1, hregistration.2.trans h.registered.2⟩, h.state_eq,
      h.motor_eq, EncoderDrv.serve_announced (by rw [h.registered.1]) h.announced i⟩
  rw [step_pinInput]
  rcases EncoderDrv.serve_edge h.registered.2 d hi with hnone | hcall
  · rw [hnone]
    have hsettled := settle_idle (c := { c with encoder := (c.encoder.serve i).1 }) h.tasks_eq
    rw [← hsettled] at hnext
    exact hnext
  · have htasks : c.offerAll [.ofType .stepActivity] = [.ofType .stepActivity] := by
      rw [offerAll, h.tasks_eq]
      rfl
    rw [hcall, h.registered.1]
    change (settle { c with
      encoder := (c.encoder.serve i).1
      tasks := c.offerAll [.ofType .stepActivity] }).Searching
    rw [htasks]
    have hexecute := execute_step (c := { c with
      encoder := (c.encoder.serve i).1
      tasks := [.ofType .stepActivity] }) h.saved rfl
    rcases hexecute with ⟨hfinish, _⟩ | ⟨_, he⟩
    · cases h.state_eq.symm.trans hfinish.1
    · rw [settle_once (congrArg tasks he), he]
      rw [← h.tasks_eq]
      exact hnext

/-- The motor is off, and can turn the shaft either way, from this far off the mark. -/
structure Standing (c : Controller) (offset : Int) : Prop where
  quiet : c.Quiet
  ready : c.state = .ready
  off : c.motorOn = false
  geared : ∀ d, c.encoder.Geared offset d

/-- The home pulse stops the motor. -/
theorem Searching.home (h : c.Searching) : (c.step (pinInput .riseZ)).settle.Standing 0 := by
  have htasks : c.offerAll [.ofType .homeActivity] = [.ofType .homeActivity] := by
    rw [offerAll, h.tasks_eq]
    rfl
  have hcall : dispatchedTask c.encoder.edgeZ.2 = some (.ofType .homeActivity) := by
    simp only [EncoderDrv.edgeZ, h.registered.1, h.registered.2]
    rfl
  rw [step_pinInput, EncoderDrv.serve_riseZ, hcall, Option.toList_some, htasks]
  have hturn : Turn _ (.ofType .homeActivity) [] (execute { c with
    encoder := c.encoder.edgeZ.1
    tasks := [.ofType .homeActivity] }) := execute_turn h.saved rfl
  have hnext : execute { c with
      encoder := c.encoder.edgeZ.1
      tasks := [.ofType .homeActivity] } = { c with
      encoder := c.encoder.edgeZ.1
      tasks := []
      userApplication := ⟨.ready, c.params⟩
      stepperMotor := ⟨c.stepperMotor.dirPin, false⟩
      log := c.log ++ [.drive .stop] } := by
    generalize execute { c with
      encoder := c.encoder.edgeZ.1
      tasks := [.ofType .homeActivity] } = next at hturn
    cases hturn with
    | home => rfl
    | calibrate _ htype => cases htype
    | immediate haccept => cases haccept.2.1
    | anticlockwise haccept => cases haccept.2.1
    | clockwise haccept => cases haccept.2.1
    | finish hfinish => cases h.state_eq.symm.trans hfinish.1
    | ignore _ _ hcalibration => rcases hcalibration h.state_eq with htype | htype <;> cases htype
  rw [settle_once (congrArg tasks hnext), hnext]
  refine ⟨⟨h.saved, rfl, h.parser, h.registered, Nat.zero_lt_succ 179⟩, rfl, rfl, fun d => ?_⟩
  refine ⟨h.announced, fun hseen => ?_, ⟨rfl, rfl⟩⟩
  cases d <;> cases hseen

/-- A quarter of a turn clockwise, in which the mark is reached or the search goes on. -/
theorem Searching.turned (h : c.Searching) (quarter : Int) :
    if (quarter - 1) % quartersRound = 0 then (c.turned quarter).Standing 0
    else (c.turned quarter).Searching := by
  have hround : quartersRound = 720 := rfl
  have hinterrupts : c.turned quarter = (Machine.run step c ((quarterInterrupts quarter
      (quarter + Direction.clockwise.sign)).map pinInput)).settle := by
    rw [Controller.turned, h.motor_eq]
    rfl
  have hsign : Direction.clockwise.sign = -1 := rfl
  rw [hinterrupts]
  by_cases hfirst : quarter % 4 = 0
  · have hmark : ¬ (quarter - 1) % quartersRound = 0 := by
      rw [hround]
      omega
    rw [if_neg hmark, quarterInterrupts_first .clockwise hfirst]
    exact h.edge (.inl rfl)
  · by_cases hsecond : (quarter - Direction.clockwise.sign) % 4 = 0
    · have hmark : ¬ (quarter - 1) % quartersRound = 0 := by
        rw [hround]
        omega
      rw [if_neg hmark, quarterInterrupts_second .clockwise hsecond]
      exact h.edge (.inr rfl)
    · rw [quarterInterrupts_falling .clockwise hfirst hsecond, hsign, ← Int.sub_eq_add_neg]
      split
      · exact h.home
      · change (settle c).Searching
        rw [settle_idle h.tasks_eq]
        exact h

/-! The way to a target. -/

structure Underway (c : Controller) (offset : Int) (target : Nat) : Prop where
  approaching : c.Approaching target
  geared : c.encoder.Geared offset (direction c.stepperMotor.dirPin)

private theorem Approaching.hasRoom (h : c.Approaching target) :
    (direction c.stepperMotor.dirPin).HasRoom c.encoder.encoderPosition := by
  have hhigher : encoderDrvEncoderPositionHigherBound = 179 := rfl
  have hlower : encoderDrvEncoderPositionLowerBound = 0 := rfl
  have htarget := h.target_lt
  have hlt : c.encoder.encoderPosition < 180 := h.quiet.position_lt
  rcases h.motor with ⟨hgt, hmotor⟩ | ⟨hgt, hmotor⟩
  · change c.encoder.encoderPosition < target at hgt
    rw [hmotor]
    change c.encoder.encoderPosition < encoderDrvEncoderPositionHigherBound
    omega
  · change target < c.encoder.encoderPosition at hgt
    rw [hmotor]
    change encoderDrvEncoderPositionLowerBound < c.encoder.encoderPosition ∧
      c.encoder.encoderPosition ≤ encoderDrvEncoderPositionHigherBound
    omega

/-- The first edge of a cycle is counted, and the motor is stopped if that is the target. -/
theorem Underway.counted {offset : Int} (h : c.Underway offset target) (hphase : offset % 4 = 0) :
    let d := direction c.stepperMotor.dirPin
    let next := (c.step (pinInput d.first)).settle
    (next.Arrived target ∧ next.Standing (offset + d.sign) ∧
        offset + d.sign = d.stopOffset target ∧ next.log = c.log ++ arrival target) ∨
      (next.Underway (offset + d.sign) target ∧ next.stepperMotor = c.stepperMotor ∧
        next.log = c.log) := by
  have hroom := h.approaching.hasRoom
  have hedge := edge_settled h.approaching
  have hencoder := settle_encoder
    (c.step (pinInput (direction c.stepperMotor.dirPin).first))
  rw [countedEdge_eq] at hedge
  dsimp only at hedge ⊢
  generalize (c.step (pinInput (direction c.stepperMotor.dirPin).first)).settle = next
    at hedge hencoder ⊢
  obtain ⟨hstop, hgeared⟩ :=
    h.geared.first (by rw [h.approaching.quiet.registered.1]) hphase hroom
  rw [step_pinInput] at hencoder
  dsimp only at hencoder
  rw [← hencoder] at hstop hgeared
  obtain ⟨hposition, hhome, ⟨harrived, hlog⟩ | ⟨happroaching, hlog⟩⟩ := hedge
  · left
    have hat : next.encoder.encoderPosition = target := harrived.position_eq
    rw [hat] at hstop
    exact ⟨harrived, ⟨harrived.quiet, harrived.state_eq, harrived.motor_off, hgeared⟩, hstop, hlog⟩
  · right
    have hmotor : next.stepperMotor = c.stepperMotor := by
      have hafter := happroaching.motor
      rw [hposition, nextPosition] at hafter
      rcases h.approaching.motor with ⟨hgt, hmotor⟩ | ⟨hgt, hmotor⟩
      · rcases hafter with ⟨_, hnext⟩ | ⟨hover, _⟩
        · rw [hnext, hmotor]
        · rw [if_pos hgt] at hover
          split at hover <;> omega
      · rcases hafter with ⟨hover, _⟩ | ⟨_, hnext⟩
        · rw [if_neg (Nat.lt_asymm hgt)] at hover
          split at hover <;> omega
        · rw [hnext, hmotor]
    refine ⟨⟨happroaching, ?_⟩, hmotor, hlog⟩
    rw [hmotor]
    exact hgeared _

/-- Elsewhere in a cycle the shaft only turns on. -/
theorem Underway.uncounted {offset : Int} (h : c.Underway offset target) (hphase : offset % 4 ≠ 0)
    {encoder : EncoderDrv Handler} (hregistration : SameRegistration c.encoder encoder)
    (hposition : encoder.encoderPosition = c.encoder.encoderPosition)
    (hhome : encoder.recentlyEncounteredHomeEvent = c.encoder.recentlyEncounteredHomeEvent)
    (hannounced : encoder.encoderPositionUpdateNotification = false) :
    Underway { c with encoder } (offset + (direction c.stepperMotor.dirPin).sign) target := by
  have hsame : position { c with encoder } = c.position := hposition
  have hquiet := h.approaching.quiet
  refine ⟨⟨⟨hquiet.saved, hquiet.tasks_eq, hquiet.parser,
    ⟨hregistration.1.trans hquiet.registered.1, hregistration.2.trans hquiet.registered.2⟩, ?_⟩,
    h.approaching.target_lt, h.approaching.app_eq, ?_⟩,
    h.geared.uncounted hphase hposition hhome hannounced⟩
  · rw [hsame]
    exact hquiet.position_lt
  · rw [hsame]
    exact h.approaching.motor

/-- A quarter of a turn towards the target. -/
theorem Underway.turned (h : c.Underway (quarter - mark) target) (hmark : mark % quartersRound = 0) :
    let d := direction c.stepperMotor.dirPin
    let next := c.turned quarter
    (next.Arrived target ∧ next.Standing (quarter + d.sign - mark) ∧
        quarter + d.sign - mark = d.stopOffset target ∧ next.log = c.log ++ arrival target) ∨
      (next.Underway (quarter + d.sign - mark) target ∧ next.stepperMotor = c.stepperMotor ∧
        next.log = c.log) := by
  have hround : quartersRound = 720 := rfl
  have hquiet := h.approaching.quiet
  have hafter : quarter + (direction c.stepperMotor.dirPin).sign - mark =
      quarter - mark + (direction c.stepperMotor.dirPin).sign := by omega
  dsimp only
  rw [Controller.turned, hafter]
  by_cases hfirst : quarter % 4 = 0
  · rw [quarterInterrupts_first _ hfirst]
    rw [hround] at hmark
    exact h.counted (by omega)
  · have hphase : (quarter - mark) % 4 ≠ 0 := by
      rw [hround] at hmark
      omega
    right
    by_cases hsecond : (quarter - (direction c.stepperMotor.dirPin).sign) % 4 = 0
    · have hseen : c.encoder.missedFirst (direction c.stepperMotor.dirPin) = false := by
        rw [hround] at hmark
        exact h.geared.seen (by omega)
      obtain ⟨hnone, hposition, hhome⟩ :=
        EncoderDrv.serve_second (direction c.stepperMotor.dirPin) h.geared.announced hseen
      have hregistration : SameRegistration c.encoder
          (c.encoder.serve (direction c.stepperMotor.dirPin).second).1 :=
        callback_registration c.encoder _ _ _ _
      have hnext := h.uncounted hphase hregistration hposition hhome
        (EncoderDrv.serve_announced (by rw [hquiet.registered.1]) h.geared.announced _)
      have hturned : Machine.run step c ([(direction c.stepperMotor.dirPin).second].map pinInput) =
          { c with encoder := (c.encoder.serve (direction c.stepperMotor.dirPin).second).1 } := by
        change c.step (pinInput _) = _
        rw [step_pinInput, hnone]
        rfl
      rw [quarterInterrupts_second _ hsecond, hturned,
        settle_idle hnext.approaching.quiet.tasks_eq]
      exact ⟨hnext, rfl, rfl⟩
    · have hnext : c.Underway (quarter - mark + (direction c.stepperMotor.dirPin).sign) target :=
        h.uncounted hphase ⟨rfl, rfl⟩ rfl rfl h.geared.announced
      have hmarkless : ¬ (quarter + (direction c.stepperMotor.dirPin).sign) % quartersRound = 0 := by
        have hoff := h.geared.off_mark hphase h.approaching.hasRoom
        rw [hround] at hmark hoff ⊢
        omega
      rw [quarterInterrupts_falling _ hfirst hsecond, if_neg hmarkless, List.map_nil,
        Machine.run_nil, settle_idle hquiet.tasks_eq]
      exact ⟨hnext, rfl, rfl⟩

/-- The target is ahead, by less than a turn. -/
theorem Underway.ahead {offset : Int} (h : c.Underway offset target) :
    let left := (direction c.stepperMotor.dirPin).sign *
      ((direction c.stepperMotor.dirPin).stopOffset target - offset)
    0 < left ∧ left ≤ quartersRound := by
  have hround : quartersRound = 720 := rfl
  have htarget := h.approaching.target_lt
  have hlt : c.encoder.encoderPosition < 180 := h.approaching.quiet.position_lt
  have hpast := h.geared.past
  rw [hround]
  rcases h.approaching.motor with ⟨hgt, hmotor⟩ | ⟨hgt, hmotor⟩
  · change c.encoder.encoderPosition < target at hgt
    rw [hmotor] at hpast ⊢
    simp only [direction, Direction.past, Direction.stopOffset, Direction.sign] at hpast ⊢
    split at hpast <;> omega
  · change target < c.encoder.encoderPosition at hgt
    rw [hmotor] at hpast ⊢
    simp only [direction, Direction.past, Direction.stopOffset, Direction.sign] at hpast ⊢
    split at hpast <;> omega

/-- A shaft at rest is in the cycle of its position. -/
theorem Standing.within {offset : Int} (h : c.Standing offset) :
    4 * (c.position : Int) ≤ offset ∧ offset ≤ 4 * c.position + 3 := by
  have hanticlockwise := (h.geared .anticlockwise).past
  have hclockwise := (h.geared .clockwise).past
  change 4 * (c.encoder.encoderPosition : Int) ≤ offset ∧
    offset ≤ 4 * c.encoder.encoderPosition + 3
  simp only [Direction.past, Direction.stopOffset, Direction.sign] at hanticlockwise hclockwise
  split at hanticlockwise
  · omega
  · rw [if_neg ‹_›] at hclockwise
    omega

end Controller

namespace Servo
variable {s : Servo} {mark : Int} {target fuel : Nat}

private theorem turn_settles (h : Sound s.firmware) :
    ∃ firmware, s.turn =
        some ⟨firmware, s.quarter + (direction s.firmware.stepperMotor.dirPin).sign⟩ ∧
      Sound firmware ∧ firmware.controller = s.firmware.controller.turned s.quarter := by
  obtain ⟨hserved, hcontroller⟩ := run_sound h ((quarterInterrupts s.quarter
    (s.quarter + (direction s.firmware.stepperMotor.dirPin).sign)).map pinInput)
  obtain ⟨firmware, hexecute, hsound, hsettled⟩ := schedulerExecute_settles hserved
  refine ⟨firmware, ?_, hsound, ?_⟩
  · rw [turn, hexecute]
    rfl
  · rw [hsettled, hcontroller]
    rfl

theorem run_off (h : s.firmware.stepperMotor.pwmEnabled = false) (fuel : Nat) :
    run fuel s = some s :=
  Machine.loop_stops run (fun s => s.firmware.stepperMotor.pwmEnabled) id (fun _ => rfl)
    (fun _ _ => rfl) h fuel

theorem run_on {next : Servo} (h : s.firmware.stepperMotor.pwmEnabled = true)
    (hnext : s.turn = some next) (fuel : Nat) : run (fuel + 1) s = run fuel next := by
  rw [run, if_pos h, hnext]
  rfl

/-- The search ends at the mark, in less than a turn. -/
theorem run_searching (hsound : Sound s.firmware) (h : s.firmware.controller.Searching)
    (hfuel : (s.quarter - 1) % quartersRound + 1 ≤ fuel) :
    ∃ last, run fuel s = some last ∧ Sound last.firmware ∧
      last.firmware.controller.Standing 0 ∧
      last.quarter = s.quarter - ((s.quarter - 1) % quartersRound + 1) := by
  have hround : quartersRound = 720 := rfl
  rw [hround] at hfuel ⊢
  induction fuel generalizing s with
  | zero => omega
  | succ fuel ih =>
    obtain ⟨firmware, hturn, hsoundNext, hcontroller⟩ := turn_settles hsound
    have hdir : s.firmware.stepperMotor = ⟨.clockwise, true⟩ := h.motor_eq
    have hquarter : s.quarter + (direction s.firmware.stepperMotor.dirPin).sign = s.quarter - 1 := by
      rw [hdir]
      rfl
    rw [hquarter] at hturn
    rw [run_on (by rw [hdir]) hturn]
    have hsearch := h.turned s.quarter
    rw [← hcontroller, hround] at hsearch
    split at hsearch
    · rw [run_off hsearch.off]
      exact ⟨_, rfl, hsoundNext, hsearch, by dsimp only; omega⟩
    · obtain ⟨last, hlast, hsoundLast, hstanding, hlastQuarter⟩ :=
        ih (s := ⟨firmware, s.quarter - 1⟩) hsoundNext hsearch (by dsimp only; omega)
      refine ⟨last, hlast, hsoundLast, hstanding, ?_⟩
      dsimp only at hlastQuarter
      omega

/-- The motor is stopped by the edge that counts the target. -/
theorem run_underway (hmark : mark % quartersRound = 0) (hsound : Sound s.firmware)
    (h : s.firmware.controller.Underway (s.quarter - mark) target)
    (hfuel : (direction s.firmware.stepperMotor.dirPin).sign *
      ((direction s.firmware.stepperMotor.dirPin).stopOffset target - (s.quarter - mark)) ≤ fuel) :
    ∃ last, run fuel s = some last ∧ Sound last.firmware ∧
      last.firmware.controller.Arrived target ∧
      last.firmware.controller.Standing (last.quarter - mark) ∧
      last.firmware.log = s.firmware.log ++ Controller.arrival target := by
  induction fuel generalizing s with
  | zero =>
    have hahead := h.ahead.1
    change 0 < (direction s.firmware.stepperMotor.dirPin).sign *
      ((direction s.firmware.stepperMotor.dirPin).stopOffset target - (s.quarter - mark)) at hahead
    omega
  | succ fuel ih =>
    obtain ⟨firmware, hturn, hsoundNext, hcontroller⟩ := turn_settles hsound
    have hon : s.firmware.stepperMotor.pwmEnabled = true := by
      rcases h.approaching.motor with ⟨_, hmotor⟩ | ⟨_, hmotor⟩
      · exact congrArg StepperMotorDrv.pwmEnabled hmotor
      · exact congrArg StepperMotorDrv.pwmEnabled hmotor
    rw [run_on hon hturn]
    have hends := h.turned hmark
    dsimp only at hends
    rw [← hcontroller] at hends
    rcases hends with ⟨harrived, hstanding, _, hlog⟩ | ⟨hunderway, hmotor, hlog⟩
    · rw [run_off harrived.motor_off]
      exact ⟨_, rfl, hsoundNext, harrived, hstanding, hlog⟩
    · have hdir : firmware.stepperMotor = s.firmware.stepperMotor := hmotor
      have hlogNext : firmware.log = s.firmware.log := hlog
      obtain ⟨last, hlast, hsoundLast, harrived, hstanding, hlogLast⟩ :=
        ih (s := ⟨firmware, s.quarter + (direction s.firmware.stepperMotor.dirPin).sign⟩)
          hsoundNext hunderway (by
            dsimp only
            rw [hdir]
            generalize direction s.firmware.stepperMotor.dirPin = d at hfuel ⊢
            cases d <;> simp only [Direction.sign] at hfuel ⊢ <;> omega)
      exact ⟨last, hlast, hsoundLast, harrived, hstanding, by rw [hlogLast, hlogNext]⟩

end Servo

section Accuracy
variable {s : Servo} {mark : Int} {fuel : Nat}

/-- What a reply should be: the commander is told the position that its angle rounds down to,
and the shaft is in the cycle of that position. -/
structure Reply.Faithful (mark : Int) (angle : Nat) (reply : Reply) : Prop where
  told : reply.outcome = some (.achieved (2 * (angle / 2)), [])
  stands : 4 * ((angle / 2 : Nat) : Int) ≤ reply.quarter - mark ∧
    reply.quarter - mark ≤ 4 * (angle / 2 : Nat) + 3

private theorem report_outcome {fw last : Firmware (SchedulerParams Handler)} {target : Nat}
    (htarget : target < 180) {outputs : List Output}
    (hlog : last.log = fw.log ++ (outputs ++ Controller.arrival target))
    (hquiet : outputs.filterMap Output.response = []) (visited : List Nat) :
    (fw.report last visited).outcome = some (.achieved (2 * target), []) := by
  have htransmitted : (last.log.drop fw.log.length).filterMap Output.response =
      [angleFrame .ok (2 * target)] := by
    rw [hlog, List.drop_left, List.filterMap_append, hquiet]
    rfl
  rw [Firmware.report, htransmitted, smcReads_angleFrame htarget]

/-- One command, from where the shaft stands to where it comes to stand. -/
theorem command_faithful (hmark : mark % quartersRound = 0) (hsound : Sound s.firmware)
    (h : s.firmware.controller.Standing (s.quarter - mark)) {angle : Nat} (hangle : angle ≤ 359)
    (hfuel : 720 ≤ fuel) :
    ∃ last reply, s.command fuel angle = some (last, reply) ∧ Sound last.firmware ∧
      last.firmware.controller.Standing (last.quarter - mark) ∧ reply.Faithful mark angle := by
  have htarget : angle / 2 < 180 := by omega
  obtain ⟨hsoundFed, hfed⟩ :=
    feedBytes_sound hsound (ipcFormat.frame (commandPayload angle))
  obtain ⟨taken, htaken, hsoundTaken, hsettled⟩ := schedulerExecute_settles hsoundFed
  rw [hfed] at hsettled
  obtain ⟨hencoder, hcases⟩ := Controller.command_settled h.quiet h.ready hangle
  rw [← hsettled] at hencoder hcases
  have hcommand {last} (hlast : Servo.run fuel ⟨taken, s.quarter⟩ = some last) :
      s.command fuel angle =
        some (last, ⟨(s.firmware.report last.firmware []).outcome, last.quarter⟩) := by
    rw [Servo.command, smcCommandBytes_eq hangle]
    simp only [Option.bind_eq_bind, Option.bind_some, htaken, hlast]
    rfl
  rcases hcases with ⟨_, harrived, hlog⟩ | ⟨_, happroaching, drive, hlog⟩
  · have hstanding : taken.controller.Standing (s.quarter - mark) :=
      ⟨harrived.quiet, harrived.state_eq, harrived.motor_off,
        fun d => by rw [hencoder]; exact h.geared d⟩
    have hwithin := hstanding.within
    rw [harrived.position_eq] at hwithin
    refine ⟨_, _, hcommand (Servo.run_off harrived.motor_off fuel), hsoundTaken, hstanding, ?_,
      hwithin⟩
    have hlogAll : taken.log = s.firmware.log ++ ([.received .ok (commandPayload angle)] ++
        Controller.arrival (angle / 2)) := hlog
    exact report_outcome htarget hlogAll rfl []
  · have hunderway : taken.controller.Underway (s.quarter - mark) (angle / 2) :=
      ⟨happroaching, by rw [hencoder]; exact h.geared _⟩
    have hahead := hunderway.ahead.2
    have hround : quartersRound = 720 := rfl
    rw [hround] at hahead
    have hturns : (720 : Int) ≤ fuel := by omega
    obtain ⟨last, hlast, hsoundLast, harrived, hstanding, hlogLast⟩ :=
      Servo.run_underway hmark (s := ⟨taken, s.quarter⟩) hsoundTaken hunderway
        (Int.le_trans hahead hturns)
    have hwithin := hstanding.within
    rw [harrived.position_eq] at hwithin
    refine ⟨_, _, hcommand hlast, hsoundLast, hstanding, ?_, hwithin⟩
    have hlogAll : last.firmware.log = s.firmware.log ++
        ([.received .ok (commandPayload angle), .drive drive] ++
          Controller.arrival (angle / 2)) := by
      rw [hlogLast, ← List.append_assoc]
      exact congrArg (· ++ Controller.arrival (angle / 2)) hlog
    exact report_outcome htarget hlogAll rfl []

private theorem commands_faithful (hmark : mark % quartersRound = 0) (hsound : Sound s.firmware)
    (h : s.firmware.controller.Standing (s.quarter - mark)) (angles : List Nat)
    (hangles : ∀ angle ∈ angles, angle ≤ 359) (hfuel : 720 ≤ fuel) :
    ∃ last replies, s.commands fuel angles = some (last, replies) ∧
      List.Forall₂ (Reply.Faithful mark) angles replies := by
  induction angles generalizing s with
  | nil => exact ⟨s, [], rfl, .nil⟩
  | cons angle rest ih =>
    rw [List.forall_mem_cons] at hangles
    obtain ⟨next, reply, hnext, hsoundNext, hstanding, hfaithful⟩ :=
      command_faithful hmark hsound h hangles.1 hfuel
    obtain ⟨last, replies, hlast, hall⟩ := ih hsoundNext hstanding hangles.2
    refine ⟨last, reply :: replies, ?_, .cons hfaithful hall⟩
    rw [Servo.commands, hnext]
    simp only [Option.bind_eq_bind, Option.bind_some, hlast]
    rfl

/-- Wherever the shaft is at power-on, the calibration ends at a home mark within a turn; and
after any commands since, the shaft is in the cycle that the last angle names, and the
commander has been told so. -/
theorem servo_faithful (quarter : Int) (angles : List Nat)
    (hangles : ∀ angle ∈ angles, angle ≤ 359) (hfuel : 720 ≤ fuel) :
    ∃ home last replies, Servo.powerOn fuel quarter = some home ∧
      home.quarter % quartersRound = 0 ∧ quarter - quartersRound ≤ home.quarter ∧
      home.quarter < quarter ∧ home.commands fuel angles = some (last, replies) ∧
      List.Forall₂ (Reply.Faithful home.quarter) angles replies := by
  have hround : quartersRound = 720 := rfl
  obtain ⟨firmware, hexecute, hsound, hsettled⟩ := schedulerExecute_settles start_sound
  rw [start_related.2] at hsettled
  have hsearching : firmware.controller.Searching := by
    rw [hsettled]
    exact Controller.start_searching
  have hturns : (quarter - 1) % quartersRound + 1 ≤ (fuel : Int) := by
    rw [hround]
    omega
  obtain ⟨home, hhome, hsoundHome, hstanding, hquarter⟩ :=
    Servo.run_searching (s := ⟨firmware, quarter⟩) hsound hsearching hturns
  dsimp only at hquarter
  have hmark : home.quarter % quartersRound = 0 := by
    rw [hround] at hquarter ⊢
    omega
  rw [← Int.sub_self home.quarter] at hstanding
  obtain ⟨last, replies, hlast, hall⟩ :=
    commands_faithful hmark hsoundHome hstanding angles hangles hfuel
  refine ⟨home, last, replies, ?_, hmark, ?_, ?_, hlast, hall⟩
  · rw [Servo.powerOn, hexecute]
    exact hhome
  · rw [hround] at hquarter ⊢
    omega
  · rw [hround] at hquarter
    omega

/-- Out, back, to the far end and home again, from an angle between two edges. -/
theorem servo_faithful_session :
    ∃ home last replies, Servo.powerOn 720 (-50) = some home ∧
      home.quarter % quartersRound = 0 ∧ -50 - quartersRound ≤ home.quarter ∧
      home.quarter < -50 ∧ home.commands 720 [90, 11, 359, 0] = some (last, replies) ∧
      List.Forall₂ (Reply.Faithful home.quarter) [90, 11, 359, 0] replies :=
  servo_faithful (-50) [90, 11, 359, 0] (by decide) (Nat.le_refl 720)

end Accuracy
end ClosedLoopStepper.Device
