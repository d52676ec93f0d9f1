import ClosedLoopStepper.Device.Command
import ClosedLoopStepper.Device.Overshoot
import ClosedLoopStepper.Device.StaleBytes

/-! The closed loop on an ideal plant. While the motor is enabled every plant step is one
counted edge of the driven direction, and the queue is drained after it. Each command then
ends at its target, by the shortest path that does not wrap. -/
namespace ClosedLoopStepper.Device
open Foundations Foundations.Framing Common Scheduler Ipc Encoder StepperMotor Application

/-- The counted edge of a direction: A rises with B low, or B rises with A low. -/
def countedEdge : StepperMotorDrvDirPinStatus → Input
  | .anticlockwise => .pinTransition encoderDrvPinAAnticlockwise gpioIrqEdgeRise true false
  | .clockwise => .pinTransition encoderDrvPinBClockwise gpioIrqEdgeRise false true

namespace Firmware

def state (fw : Firmware (SchedulerParams Handler)) : UserApplicationStateMachineState :=
  fw.userApplication.userApplicationStateMachineState

def position (fw : Firmware (SchedulerParams Handler)) : Nat :=
  encoderDrvGetEncoderPosition fw.encoder

def plantStep (fw : Firmware (SchedulerParams Handler)) :
    Option (Firmware (SchedulerParams Handler)) :=
  (fw.step (countedEdge fw.stepperMotor.dirPin)).schedulerExecute (3 * schedulerMaxQueueSize)

/-- Plant steps while the motor is enabled, with the position after each; `none` when the
fuel does not suffice. -/
def plantRun (fw : Firmware (SchedulerParams Handler)) :
    Nat → Option (Firmware (SchedulerParams Handler) × List Nat)
  | 0 => if fw.stepperMotor.pwmEnabled then none else some (fw, [])
  | fuel + 1 =>
    if fw.stepperMotor.pwmEnabled then do
      let next ← fw.plantStep
      let (last, visited) ← next.plantRun fuel
      return (last, next.position :: visited)
    else some (fw, [])

end Firmware

def wraps : List Nat → Bool
  | p :: q :: rest =>
    (p == encoderDrvEncoderPositionHigherBound && q == encoderDrvEncoderPositionLowerBound) ||
      (p == encoderDrvEncoderPositionLowerBound && q == encoderDrvEncoderPositionHigherBound) ||
      wraps (q :: rest)
  | _ => false

/-- How a command went: the state it has left, the counted edges it took, whether the
position wrapped on the way, the frames sent, and what the commander made of them. -/
structure Report where
  state : UserApplicationStateMachineState
  pwmEnabled : Bool
  position : Nat
  edges : Nat
  wrapped : Bool
  transmitted : List (List UInt8)
  outcome : Option (Commander.SmcOutcome × List UInt8)
  deriving DecidableEq

def Firmware.report (fw last : Firmware (SchedulerParams Handler)) (visited : List Nat) : Report :=
  let transmitted := (last.log.drop fw.log.length).filterMap Output.response
  { state := last.state
    pwmEnabled := last.stepperMotor.pwmEnabled
    position := last.position
    edges := visited.length
    wrapped := wraps (fw.position :: visited)
    transmitted
    outcome := Commander.smcReads transmitted.flatten }

/-- The commander's frame for an angle is received, the queue is drained, and the plant
runs until the motor is off again. -/
def Firmware.command (fw : Firmware (SchedulerParams Handler)) (fuel angle : Nat) :
    Option (Firmware (SchedulerParams Handler) × Report) := do
  let bytes ← Commander.smcCommandBytes angle
  let taken ← (feedBytes fw bytes).schedulerExecute (3 * schedulerMaxQueueSize)
  let (last, visited) ← taken.plantRun fuel
  return (last, fw.report last visited)

def Firmware.commands (fw : Firmware (SchedulerParams Handler)) (fuel : Nat) :
    List Nat → Option (Firmware (SchedulerParams Handler) × List Report)
  | [] => some (fw, [])
  | angle :: rest => do
    let (next, report) ← fw.command fuel angle
    let (last, reports) ← next.commands fuel rest
    return (last, report :: reports)

/-- How a command should go: to its position, by as many edges as that is away, and by one
more where a home pulse has just come and the command moves. -/
def expectedReport (position : Nat) (home : Bool) (angle : Nat) : Report where
  state := .ready
  pwmEnabled := false
  position := angle / 2
  edges := ((angle / 2 : Nat) - position : Int).natAbs +
    if home = true ∧ angle / 2 ≠ position then 1 else 0
  wrapped := false
  transmitted := [angleFrame .ok (2 * (angle / 2))]
  outcome := some (.achieved (2 * (angle / 2)), [])

/-- Each command starts where the one before it has ended, and the first one that moves
takes the home flag away. -/
def expectedReports (position : Nat) (home : Bool) : List Nat → List Report
  | [] => []
  | angle :: rest => expectedReport position home angle ::
      expectedReports (angle / 2) (home && angle / 2 == position) rest

/-! The path to a target. -/

/-- The position after the next counted edge towards the target: the first edge after a
home pulse is swallowed. -/
def nextPosition (position target : Nat) (home : Bool) : Nat :=
  if home then position else if position < target then position + 1 else position - 1

def edgesLeft (position target : Nat) (home : Bool) : Nat :=
  (target - position : Int).natAbs + if home = true ∧ target ≠ position then 1 else 0

private theorem edgesLeft_next {position target : Nat} (hne : target ≠ position) (home : Bool) :
    edgesLeft position target home = edgesLeft (nextPosition position target home) target false + 1 := by
  unfold edgesLeft nextPosition
  cases home with
  | true => simp [hne]
  | false =>
    simp only [Bool.false_eq_true, if_false, false_and]
    split <;> omega

private theorem wraps_next (position target : Nat) (home : Bool) (rest : List Nat) :
    wraps (position :: nextPosition position target home :: rest) =
      wraps (nextPosition position target home :: rest) := by
  have hhigher : encoderDrvEncoderPositionHigherBound = 179 := rfl
  have hlower : encoderDrvEncoderPositionLowerBound = 0 := rfl
  have hnear : nextPosition position target home ≤ position + 1 ∧
      position ≤ nextPosition position target home + 1 := by
    unfold nextPosition
    split
    · omega
    · split <;> omega
  rw [wraps, hhigher, hlower]
  simp only [Bool.or_eq_right_iff_imp, Bool.or_eq_true, Bool.and_eq_true, beq_iff_eq]
  omega

namespace Controller
variable {c : Controller} {target : Nat}

private theorem Approaching.target_ne (h : c.Approaching target) : target ≠ c.position := by
  rcases h.motor with ⟨hgt, _⟩ | ⟨hlt, _⟩
  · omega
  · omega

/-- What a counted edge does to the driver: it moves on unless a home pulse came just
before, and calls the step handler. -/
structure Counted (drv : EncoderDrv Handler) (move : Nat → Nat)
    (next : EncoderDrv Handler × Option (Dispatch Handler)) : Prop where
  position : next.1.encoderPosition =
    if drv.recentlyEncounteredHomeEvent then drv.encoderPosition else move drv.encoderPosition
  home : next.1.recentlyEncounteredHomeEvent = false
  registration : SameRegistration drv next.1
  called : next.2 = some (.call .userApplicationEncoderStepActivity)

private theorem countedEdge_driver {drv : EncoderDrv Handler} {homeHandler : Option Handler}
    (hhandlers : drv.eventHandlers = ⟨some .userApplicationEncoderStepActivity, homeHandler⟩)
    (hhandling : drv.eventHandling = .immediate) :
    Counted drv encoderDrvIncrementEncoderPosition (drv.edgeA false).notifyStep ∧
      Counted drv encoderDrvDecrementEncoderPosition (drv.edgeB false).notifyStep := by
  obtain ⟨_, _, _, _, _, _, _⟩ := drv
  cases hhandlers
  cases hhandling
  exact ⟨⟨rfl, rfl, ⟨rfl, rfl⟩, rfl⟩, ⟨rfl, rfl, ⟨rfl, rfl⟩, rfl⟩⟩

def nextAround (c : Controller) : Nat :=
  if c.encoder.recentlyEncounteredHomeEvent then c.position else c.driveOn

/-- With nothing pending, a counted edge moves the encoder on and puts its step event. -/
theorem edge_idle (ht : c.tasks = []) (hregistered : c.Registered) :
    ∃ encoder : EncoderDrv Handler,
      c.step (countedEdge c.stepperMotor.dirPin) =
          { c with encoder, tasks := [.ofType .stepActivity] } ∧
        encoder.encoderPosition = c.nextAround ∧
        encoder.recentlyEncounteredHomeEvent = false ∧ SameRegistration c.encoder encoder := by
  obtain ⟨hanticlockwise, hclockwise⟩ := countedEdge_driver hregistered.1 hregistered.2
  have hoffer : c.offerAll [.ofType .stepActivity] = [.ofType .stepActivity] := by
    rw [offerAll, ht]
    rfl
  have hstep (gpio : Nat) (levelA levelB : Bool)
      {next : EncoderDrv Handler × Option (Dispatch Handler)}
      (hnext : encoderDrvStepHomePinTransitionsCallback c.encoder gpio gpioIrqEdgeRise levelA
        levelB = next) (hcalled : next.2 = some (.call .userApplicationEncoderStepActivity)) :
      c.step (.pinTransition gpio gpioIrqEdgeRise levelA levelB) =
        { c with encoder := next.1, tasks := [.ofType .stepActivity] } := by
    rw [← hoffer]
    simp only [step, pinTransition, hnext, hcalled]
    rfl
  unfold nextAround driveOn
  cases hdir : c.stepperMotor.dirPin with
  | anticlockwise =>
    exact ⟨_, hstep _ true false (callback_edgeA c.encoder true false) hanticlockwise.called,
      hanticlockwise.position, hanticlockwise.home, hanticlockwise.registration⟩
  | clockwise =>
    exact ⟨_, hstep _ false true (callback_edgeB c.encoder false true) hclockwise.called,
      hclockwise.position, hclockwise.home, hclockwise.registration⟩

private theorem Approaching.nextAround_eq (h : c.Approaching target) :
    c.nextAround = nextPosition c.position target c.encoder.recentlyEncounteredHomeEvent := by
  have hlt := h.target_lt
  have hposition := h.quiet.position_lt
  unfold nextAround driveOn nextPosition
  rcases h.motor with ⟨hgt, hmotor⟩ | ⟨hgt, hmotor⟩
  · rw [hmotor, if_pos hgt]
    dsimp only
    rw [increment_eq hposition, Nat.mod_eq_of_lt (by omega)]
  · have hprevious : (c.position + 179) % 180 = c.position - 1 := by omega
    rw [hmotor, if_neg (Nat.lt_asymm hgt)]
    dsimp only
    rw [decrement_eq hposition, hprevious]

/-- One plant step brings the motor one counted edge nearer, or to its target. -/
theorem edge_settled (h : c.Approaching target) :
    let next := (c.step (countedEdge c.stepperMotor.dirPin)).settle
    next.position = nextPosition c.position target c.encoder.recentlyEncounteredHomeEvent ∧
      next.encoder.recentlyEncounteredHomeEvent = false ∧
      (next.Arrived target ∧ next.log = c.log ++ arrival target ∨
        next.Approaching target ∧ next.log = c.log) := by
  obtain ⟨encoder, hedge, hposition, hhome, hregistration⟩ :=
    edge_idle h.quiet.tasks_eq h.quiet.registered
  rw [h.nextAround_eq] at hposition
  have hregistered : Registered { c with encoder, tasks := [.ofType .stepActivity] } :=
    ⟨hregistration.1.trans h.quiet.registered.1, hregistration.2.trans h.quiet.registered.2⟩
  rw [hedge]
  intro next
  by_cases hat : encoder.encoderPosition = target
  · obtain ⟨harrived, hkept, hlog⟩ :=
      execute_arrives (c := { c with encoder, tasks := [.ofType .stepActivity] }) h.quiet.parser
        hregistered h.target_lt h.app_eq rfl rfl hat
    have hnext : next = execute { c with encoder, tasks := [.ofType .stepActivity] } :=
      settle_eq 1 (by decide) harrived.quiet.tasks_eq
    rw [hnext]
    refine ⟨?_, by rw [hkept]; exact hhome, .inl ⟨harrived, hlog⟩⟩
    rw [← hposition, hat]
    exact harrived.position_eq
  · have hstays : execute { c with encoder, tasks := [.ofType .stepActivity] } =
        { c with encoder, tasks := [] } := execute_stays h.app_eq rfl hat
    have hnext : next = execute { c with encoder, tasks := [.ofType .stepActivity] } :=
      settle_eq 1 (by decide) (congrArg Controller.tasks hstays)
    have hlt := h.target_lt
    have hcurrent := h.quiet.position_lt
    rw [hnext, hstays]
    refine ⟨hposition, hhome, .inr ⟨⟨⟨h.quiet.saved, rfl, h.quiet.parser, hregistered, ?_⟩,
      h.target_lt, h.app_eq, ?_⟩, rfl⟩⟩
    · change encoder.encoderPosition < 180
      rw [hposition, nextPosition]
      split
      · exact hcurrent
      · rcases h.motor with ⟨hgt, _⟩ | ⟨hgt, _⟩
        · rw [if_pos hgt]
          omega
        · rw [if_neg (Nat.lt_asymm hgt)]
          omega
    · change encoder.encoderPosition < target ∧ c.stepperMotor = _ ∨
        target < encoder.encoderPosition ∧ c.stepperMotor = _
      rw [hposition, nextPosition] at hat ⊢
      rcases h.motor with ⟨hgt, hmotor⟩ | ⟨hgt, hmotor⟩
      · rw [if_pos hgt] at hat ⊢
        refine .inl ⟨?_, hmotor⟩
        split at hat <;> split <;> omega
      · rw [if_neg (Nat.lt_asymm hgt)] at hat ⊢
        refine .inr ⟨?_, hmotor⟩
        split at hat <;> split <;> omega

end Controller

/-- Between commands: nothing is pending, the application is ready, the parser looks for a
header from its start, and the position is valid. The driver's flags are any. -/
structure Awaiting (fw : Firmware (SchedulerParams Handler)) : Prop where
  sound : Sound fw
  represents : ∃ r, Represents fw.ipc r
  ready : fw.state = .ready
  tasks_eq : fw.controller.tasks = []
  idle : fw.ipc.ipcStateMachineState = .idle
  headerIndex : fw.ipc.ipcStateMachineParams.currentHeaderParamIndex = 0
  position_lt : fw.position < 180

section ClosedLoop
variable {fw : Firmware (SchedulerParams Handler)}

theorem sound_registered (h : Sound fw) : fw.controller.Registered :=
  ⟨h.regular.encoderHandlers, h.regular.encoderHandling⟩

theorem Awaiting.quiet (h : Awaiting fw) : fw.controller.Quiet := by
  obtain ⟨r, hr⟩ := h.represents
  obtain ⟨half, rfl⟩ := hunting_of_idle hr h.idle
  have hhalf := not_half_of_index hr h.headerIndex
  subst hhalf
  exact ⟨h.sound.saved, h.tasks_eq, hr, sound_registered h.sound, h.position_lt⟩

private theorem awaiting_of_quiet (hsound : Sound fw) (h : fw.controller.Quiet)
    (hready : fw.state = .ready) :
    Awaiting fw where
  sound := hsound
  represents := ⟨_, h.parser⟩
  ready := hready
  tasks_eq := h.tasks_eq
  idle := h.parser.1
  headerIndex := congrArg IpcStateMachineParams.currentHeaderParamIndex h.parser.2
  position_lt := h.position_lt

/-- The loop returns, with the queue drained as the controller's is. -/
theorem schedulerExecute_settles (h : Sound fw) :
    ∃ last, fw.schedulerExecute (3 * schedulerMaxQueueSize) = some last ∧ Sound last ∧
      last.controller = fw.controller.settle :=
  ⟨_, (schedulerExecute_drains h).1, run_sound h _⟩

theorem plantRun_off (h : fw.stepperMotor.pwmEnabled = false) (fuel : Nat) :
    fw.plantRun fuel = some (fw, []) :=
  Machine.loop_stops (fun fuel (fw : Firmware _) => fw.plantRun fuel)
    (fun fw => fw.stepperMotor.pwmEnabled) (fun fw => (fw, [])) (fun _ => rfl) (fun _ _ => rfl) h fuel

theorem plantRun_on {next : Firmware (SchedulerParams Handler)}
    (h : fw.stepperMotor.pwmEnabled = true) (hnext : fw.plantStep = some next) (fuel : Nat) :
    fw.plantRun (fuel + 1) =
      (next.plantRun fuel).map fun run => (run.1, next.position :: run.2) := by
  rw [Firmware.plantRun, if_pos h, hnext]
  simp only [Option.bind_eq_bind, Option.bind_some]
  cases next.plantRun fuel <;> rfl

private theorem edgesLeft_step {target : Nat} (h : fw.controller.Approaching target) :
    edgesLeft fw.position target fw.encoder.recentlyEncounteredHomeEvent =
      edgesLeft (nextPosition fw.position target fw.encoder.recentlyEncounteredHomeEvent) target
        false + 1 :=
  edgesLeft_next h.target_ne _

/-- A plant step is the controller's counted edge, settled. -/
theorem plantStep_settles (h : Sound fw) :
    ∃ next, fw.plantStep = some next ∧ Sound next ∧ next.controller =
      (fw.controller.step (countedEdge fw.controller.stepperMotor.dirPin)).settle := by
  obtain ⟨hedge, hcontroller⟩ := run_sound h [countedEdge fw.stepperMotor.dirPin]
  obtain ⟨next, hnext, hsound, hsettled⟩ := schedulerExecute_settles hedge
  rw [hcontroller] at hsettled
  exact ⟨next, hnext, hsound, hsettled⟩

private theorem plantStep_settled {target : Nat} (hsound : Sound fw)
    (h : fw.controller.Approaching target) :
    ∃ next, fw.plantStep = some next ∧ Sound next ∧
      next.position = nextPosition fw.position target fw.encoder.recentlyEncounteredHomeEvent ∧
      next.encoder.recentlyEncounteredHomeEvent = false ∧
      (next.controller.Arrived target ∧ next.log = fw.log ++ Controller.arrival target ∨
        next.controller.Approaching target ∧ next.log = fw.log) := by
  obtain ⟨next, hnext, hsoundNext, hsettled⟩ := plantStep_settles hsound
  have hends := Controller.edge_settled h
  rw [← hsettled] at hends
  exact ⟨next, hnext, hsoundNext, hends⟩

/-- The plant runs until the target is reached, after as many steps as there are edges
left and without a wrap. -/
theorem plantRun_arrives {target fuel : Nat} (hsound : Sound fw)
    (h : fw.controller.Approaching target)
    (hfuel : edgesLeft fw.position target fw.encoder.recentlyEncounteredHomeEvent ≤ fuel) :
    ∃ last visited, fw.plantRun fuel = some (last, visited) ∧ Sound last ∧
      last.controller.Arrived target ∧ last.encoder.recentlyEncounteredHomeEvent = false ∧
      last.log = fw.log ++ Controller.arrival target ∧
      visited.length = edgesLeft fw.position target fw.encoder.recentlyEncounteredHomeEvent ∧
      wraps (fw.position :: visited) = false := by
  induction fuel generalizing fw with
  | zero =>
    have hleft := edgesLeft_step h
    omega
  | succ fuel ih =>
    have hleft := edgesLeft_step h
    have hon : fw.stepperMotor.pwmEnabled = true := by
      rcases h.motor with ⟨_, hmotor⟩ | ⟨_, hmotor⟩
      · exact congrArg StepperMotorDrv.pwmEnabled hmotor
      · exact congrArg StepperMotorDrv.pwmEnabled hmotor
    obtain ⟨next, hnext, hsoundNext, hposition, hhome, hends⟩ := plantStep_settled hsound h
    rw [plantRun_on hon hnext]
    rcases hends with ⟨harrived, hlog⟩ | ⟨happroaching, hlog⟩
    · have hat : next.position = target := harrived.position_eq
      rw [plantRun_off harrived.motor_off]
      refine ⟨next, [next.position], rfl, hsoundNext, harrived, hhome, hlog, ?_, ?_⟩
      · rw [hleft, ← hposition, hat]
        simp [edgesLeft]
      · rw [hposition, wraps_next]
        rfl
    · rw [← hposition] at hleft
      rw [← hhome] at hleft
      obtain ⟨last, visited, hlast, hsoundLast, harrived, hhomeLast, hlogLast, hlength, hwraps⟩ :=
        ih hsoundNext happroaching (by omega)
      rw [hlast]
      refine ⟨last, next.position :: visited, rfl, hsoundLast, harrived, hhomeLast, ?_, ?_, ?_⟩
      · rw [hlogLast, hlog]
      · rw [List.length_cons, hlength, hleft]
      · rw [hposition] at hwraps ⊢
        rw [wraps_next]
        exact hwraps

/-- The commander reads the one response as the angle of the target. -/
theorem smcReads_angleFrame {target : Nat} (h : target < 180) :
    Commander.smcReads [angleFrame .ok (2 * target)].flatten = some (.achieved (2 * target), []) := by
  have hresponse : ipcFormat.Admits (UserApplicationMessagesRespSetStepperMotorAngle.toBytes
      ⟨userApplicationMessagesRespTypeSetStepperMotorAngle, .ok, 2 * target⟩) :=
    ⟨Nat.zero_lt_succ 3, show 4 ≤ 251 by decide⟩
  have hangle : Commander.fromBytes [UInt8.ofNat (2 * target % 256), UInt8.ofNat (2 * target / 256)] =
      2 * target := by
    simp only [Commander.fromBytes, List.foldr_cons, List.foldr_nil, UInt8.toNat_ofNat']
    omega
  rw [List.flatten_singleton, Commander.smcReads, ← List.append_nil (angleFrame .ok (2 * target)),
    angleFrame, Commander.receiveDataPacket_frame hresponse]
  exact congrArg (fun n => some (Commander.SmcOutcome.achieved n, [])) hangle

private theorem report_arrived {last : Firmware (SchedulerParams Handler)} {visited : List Nat}
    {angle : Nat} (hangle : angle ≤ 359) (harrived : last.controller.Arrived (angle / 2))
    {outputs : List Output} (hlog : last.log = fw.log ++ (outputs ++ Controller.arrival (angle / 2)))
    (hquiet : outputs.filterMap Output.response = [])
    (hlength : visited.length =
      edgesLeft fw.position (angle / 2) fw.encoder.recentlyEncounteredHomeEvent)
    (hwraps : wraps (fw.position :: visited) = false) :
    fw.report last visited =
      expectedReport fw.position fw.encoder.recentlyEncounteredHomeEvent angle := by
  have htransmitted : (last.log.drop fw.log.length).filterMap Output.response =
      [angleFrame .ok (2 * (angle / 2))] := by
    rw [hlog, List.drop_left, List.filterMap_append, hquiet]
    rfl
  have hstate : last.state = .ready := harrived.state_eq
  have hoff : last.stepperMotor.pwmEnabled = false := harrived.motor_off
  have hposition : last.position = angle / 2 := harrived.position_eq
  rw [Firmware.report, htransmitted, smcReads_angleFrame (by omega), hstate, hoff, hposition,
    hlength, hwraps]
  rfl

/-- One command, and where it leaves the system for the next one. -/
theorem command_converges (h : Awaiting fw) {angle fuel : Nat} (hangle : angle ≤ 359)
    (hfuel : 180 ≤ fuel) :
    ∃ last, fw.command fuel angle =
        some (last, expectedReport fw.position fw.encoder.recentlyEncounteredHomeEvent angle) ∧
      Awaiting last ∧ last.position = angle / 2 ∧
      last.encoder.recentlyEncounteredHomeEvent =
        (fw.encoder.recentlyEncounteredHomeEvent && angle / 2 == fw.position) := by
  obtain ⟨hsoundFed, hfed⟩ := feedBytes_sound h.sound (ipcFormat.frame (commandPayload angle))
  obtain ⟨taken, htaken, hsoundTaken, hsettled⟩ := schedulerExecute_settles hsoundFed
  rw [hfed] at hsettled
  obtain ⟨hencoder, hcases⟩ := Controller.command_settled h.quiet h.ready hangle
  rw [← hsettled] at hencoder hcases
  change taken.encoder = fw.encoder at hencoder
  have hcommand {last visited} (hlast : taken.plantRun fuel = some (last, visited)) :
      fw.command fuel angle = some (last, fw.report last visited) := by
    rw [Firmware.command, smcCommandBytes_eq hangle]
    simp only [Option.bind_eq_bind, Option.bind_some, htaken, hlast]
    rfl
  have hposition : taken.position = fw.position := congrArg EncoderDrv.encoderPosition hencoder
  rcases hcases with ⟨hat, harrived, hlog⟩ | ⟨hne, happroaching, drive, hlog⟩
  · change fw.position = angle / 2 at hat
    have hlength : ([] : List Nat).length =
        edgesLeft fw.position (angle / 2) fw.encoder.recentlyEncounteredHomeEvent := by
      rw [hat]
      simp [edgesLeft]
    have hlogAll : taken.log = fw.log ++ ([.received .ok (commandPayload angle)] ++
        Controller.arrival (angle / 2)) := hlog
    have hreport := report_arrived hangle harrived hlogAll rfl hlength rfl
    rw [hcommand (plantRun_off harrived.motor_off fuel), hreport]
    refine ⟨taken, rfl, awaiting_of_quiet hsoundTaken harrived.quiet harrived.state_eq,
      harrived.position_eq, ?_⟩
    rw [hencoder, hat]
    simp
  · change fw.position ≠ angle / 2 at hne
    have hlt := h.position_lt
    have hedges : edgesLeft taken.position (angle / 2) taken.encoder.recentlyEncounteredHomeEvent ≤
        fuel := by
      rw [edgesLeft, hposition]
      split <;> omega
    obtain ⟨last, visited, hlast, hsoundLast, harrived, hhome, hlogLast, hlength, hwraps⟩ :=
      plantRun_arrives hsoundTaken happroaching hedges
    rw [hposition, hencoder] at hlength
    rw [hposition] at hwraps
    have hlogAll : last.log = fw.log ++ ([.received .ok (commandPayload angle), .drive drive] ++
        Controller.arrival (angle / 2)) := by
      rw [hlogLast, ← List.append_assoc]
      exact congrArg (· ++ Controller.arrival (angle / 2)) hlog
    have hreport := report_arrived hangle harrived hlogAll rfl hlength hwraps
    rw [hcommand hlast, hreport]
    refine ⟨last, rfl, awaiting_of_quiet hsoundLast harrived.quiet harrived.state_eq,
      harrived.position_eq, ?_⟩
    rw [hhome]
    simp [hne.symm]

/-- On the ideal plant every list of angles in range is obeyed, command by command: the
system comes back to the ready state with the motor off, at half the angle, after exactly
as many counted edges as the positions are apart, and one more for the first command that
moves after a home pulse; it never wraps on the way, and sends one response frame, which
the commander reads as the angle of that position. -/
theorem commands_converge (h : Awaiting fw) (angles : List Nat)
    (hangles : ∀ angle ∈ angles, angle ≤ 359) {fuel : Nat} (hfuel : 180 ≤ fuel) :
    ∃ last, fw.commands fuel angles = some (last,
        expectedReports fw.position fw.encoder.recentlyEncounteredHomeEvent angles) ∧
      Awaiting last := by
  induction angles generalizing fw with
  | nil => exact ⟨fw, rfl, h⟩
  | cons angle rest ih =>
    rw [List.forall_mem_cons] at hangles
    obtain ⟨next, hnext, hawaiting, hposition, hhome⟩ := command_converges h hangles.1 hfuel
    obtain ⟨last, hlast, hawaitingLast⟩ := ih hawaiting hangles.2
    rw [hposition, hhome] at hlast
    refine ⟨last, ?_, hawaitingLast⟩
    rw [Firmware.commands, hnext]
    simp only [Option.bind_eq_bind, Option.bind_some, hlast]
    rfl

end ClosedLoop

/-- A reachable state that is ready, with nothing pending and no frame begun, awaits a
command: the rest holds in every run. -/
theorem awaiting_of_reachable (inputs : List Input) {fw : Firmware (SchedulerParams Handler)}
    (hfw : fw = Machine.run Firmware.step start inputs) (hready : fw.state = .ready)
    (htasks : fw.controller.tasks = []) (hidle : fw.ipc.ipcStateMachineState = .idle)
    (hindex : fw.ipc.ipcStateMachineParams.currentHeaderParamIndex = 0)
    (hposition : fw.position < 180) : Awaiting fw where
  sound := by
    rw [hfw]
    exact (run_sound start_sound inputs).1
  represents := by
    rw [hfw]
    exact (run_receiving inputs).represents
  ready := hready
  tasks_eq := htasks
  idle := hidle
  headerIndex := hindex
  position_lt := hposition

def atHome : Firmware (SchedulerParams Handler) :=
  Machine.run Firmware.step start
    [.execute, .pinTransition encoderDrvPinZHome gpioIrqEdgeRise false false, .execute]

private theorem atHome_awaiting : Awaiting atHome :=
  awaiting_of_reachable _ rfl (by decide) (by decide) (by decide) (by decide) (by decide)

/-- To the home position itself, then out and back again: one more edge for the first
command that moves. -/
theorem commands_converge_atHome :
    (expectedReports 0 true [0, 5, 2]).map Report.edges = [0, 3, 1] ∧
      ∃ last, atHome.commands 180 [0, 5, 2] = some (last, expectedReports 0 true [0, 5, 2]) ∧
        Awaiting last :=
  ⟨by decide, commands_converge atHome_awaiting [0, 5, 2] (by decide) (Nat.le_refl 180)⟩

end ClosedLoopStepper.Device
