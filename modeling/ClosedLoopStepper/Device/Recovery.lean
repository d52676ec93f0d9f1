import ClosedLoopStepper.Device.Convergence

/-! The closed loop from any state that the firmware can get into, however late the loop
was and whatever came in. Once the queue is drained, the plant either rests, or turns on
until the home pulse, or goes round to its target, past which it may have been driven. -/
namespace ClosedLoopStepper.Device
open Foundations Foundations.Framing Common Scheduler Ipc Encoder StepperMotor Application

def ahead (dir : StepperMotorDrvDirPinStatus) (position target : Nat) : Nat :=
  match dir with
  | .anticlockwise => (target + 180 - position) % 180
  | .clockwise => (position + 180 - target) % 180

/-- The counted edges to a target: the first edge after a home pulse is swallowed, and the
position itself is reached again after a full circle only. -/
def edgesRound (dir : StepperMotorDrvDirPinStatus) (home : Bool) (position target : Nat) : Nat :=
  if home then ahead dir position target + 1
  else if position = target then 180 else ahead dir position target

namespace Controller

variable {c : Controller}

/-- A step event alone ends the execution at its position, and changes nothing elsewhere. -/
theorem execute_step (hsaved : c.Saved) (ht : c.tasks = [.ofType .stepActivity]) :
    Finishes c.userApplication c.position (.ofType .stepActivity) ∧
        c.execute = { c with
          tasks := []
          userApplication := ⟨.ready, c.params⟩
          stepperMotor := ⟨c.stepperMotor.dirPin, false⟩
          log := c.log ++ [.drive .stop, .transmitted (responseFrame c.params)] } ∨
      ¬ Finishes c.userApplication c.position (.ofType .stepActivity) ∧
        c.execute = { c with tasks := [] } := by
  have hturn : Turn c (.ofType .stepActivity) [] c.execute := execute_turn hsaved ht
  generalize c.execute = next at hturn
  cases hturn with
  | finish hfinish => exact .inl ⟨hfinish, rfl⟩
  | ignore _ hfinish => exact .inr ⟨hfinish, rfl⟩
  | calibrate _ htype => cases htype
  | home _ htype => cases htype
  | immediate haccept => cases haccept.2.1
  | anticlockwise haccept => cases haccept.2.1
  | clockwise haccept => cases haccept.2.1

theorem settle_once (h : c.execute.tasks = []) : c.settle = c.execute := settle_eq 1 (by decide) h

private theorem edge_settles (hsaved : c.Saved) (ht : c.tasks = []) (hregistered : c.Registered) :
    let next := (c.step (countedEdge c.stepperMotor.dirPin)).settle
    next.tasks = [] ∧ next.position = c.nextAround ∧
      next.encoder.recentlyEncounteredHomeEvent = false ∧
      (Finishes c.userApplication next.position (.ofType .stepActivity) ∧
          next.state = .ready ∧ next.motorOn = false ∧
          next.log = c.log ++ [.drive .stop, .transmitted (responseFrame c.params)] ∨
        ¬ Finishes c.userApplication next.position (.ofType .stepActivity) ∧
          next = { c with encoder := next.encoder }) := by
  obtain ⟨encoder, hstep, hposition, hhome, _⟩ := edge_idle ht hregistered
  have hexecute :=
    execute_step (c := { c with encoder, tasks := [.ofType .stepActivity] }) hsaved rfl
  rw [hstep]
  intro next
  rcases hexecute with ⟨hfinish, he⟩ | ⟨hfinish, he⟩
  · have hnext : next = _ := (settle_once (congrArg tasks he)).trans he
    rw [hnext]
    exact ⟨rfl, hposition, hhome, .inl ⟨hfinish, rfl, rfl, rfl⟩⟩
  · have hnext : next = _ := (settle_once (congrArg tasks he)).trans he
    rw [hnext]
    refine ⟨rfl, hposition, hhome, .inr ⟨hfinish, ?_⟩⟩
    dsimp only
    rw [ht]

end Controller

/-- At least one edge, and at most a full circle. -/
theorem edgesRound_bounds (dir : StepperMotorDrvDirPinStatus) (home : Bool) {position target : Nat}
    (hposition : position < 180) (htarget : target < 180) :
    0 < edgesRound dir home position target ∧ edgesRound dir home position target ≤ 180 := by
  unfold edgesRound ahead
  cases home <;> cases dir <;> simp only [Bool.false_eq_true, if_true, if_false]
  · split_ifs <;> omega
  · split_ifs <;> omega
  · omega
  · omega

/-- One edge, and the edges that are left after it. -/
theorem edgesRound_next (dir : StepperMotorDrvDirPinStatus) (home : Bool)
    {position next target : Nat} (hposition : position < 180) (htarget : target < 180)
    (hnext : next = if home then position else match dir with
      | .anticlockwise => encoderDrvIncrementEncoderPosition position
      | .clockwise => encoderDrvDecrementEncoderPosition position) :
    next < 180 ∧ edgesRound dir home position target =
      if target = next then 1 else edgesRound dir false next target + 1 := by
  subst hnext
  rw [increment_eq hposition, decrement_eq hposition]
  unfold edgesRound ahead
  cases home <;> cases dir <;> simp only [Bool.false_eq_true, if_true, if_false]
  · refine ⟨by omega, ?_⟩
    split_ifs <;> omega
  · refine ⟨by omega, ?_⟩
    split_ifs <;> omega
  · refine ⟨hposition, ?_⟩
    split_ifs <;> omega
  · refine ⟨hposition, ?_⟩
    split_ifs <;> omega

section Plant
variable {fw : Firmware (SchedulerParams Handler)}

private theorem plantStep_idle (h : Sound fw) (ht : fw.controller.tasks = []) :
    ∃ next, fw.plantStep = some next ∧ Sound next ∧ next.controller.tasks = [] ∧
      next.position = fw.controller.nextAround ∧
      next.encoder.recentlyEncounteredHomeEvent = false ∧
      (Finishes fw.controller.userApplication next.position (.ofType .stepActivity) ∧
          next.state = .ready ∧ next.stepperMotor.pwmEnabled = false ∧
          next.log = fw.log ++
            [.drive .stop, .transmitted (responseFrame fw.controller.params)] ∨
        ¬ Finishes fw.controller.userApplication next.position (.ofType .stepActivity) ∧
          next.controller = { fw.controller with encoder := next.encoder }) := by
  obtain ⟨next, hnext, hsound, hsettled⟩ := plantStep_settles h
  have hends := Controller.edge_settles h.saved ht (sound_registered h)
  rw [← hsettled] at hends
  exact ⟨next, hnext, hsound, hends⟩

/-- While it looks for its home position the motor turns on and on. -/
theorem plantRun_calibration (h : Sound fw) (ht : fw.controller.tasks = [])
    (hstate : fw.state = .calibration) (hon : fw.stepperMotor.pwmEnabled = true) (fuel : Nat) :
    fw.plantRun fuel = none := by
  induction fuel generalizing fw with
  | zero => rw [Firmware.plantRun, if_pos hon]
  | succ fuel ih =>
    obtain ⟨next, hnext, hsound, hnone, _, _, hends⟩ := plantStep_idle h ht
    rw [plantRun_on hon hnext]
    rcases hends with ⟨hfinish, _⟩ | ⟨_, hnextController⟩
    · cases hstate.symm.trans hfinish.1
    · have hstateNext : next.controller.state = .calibration := by
        rw [hnextController]
        exact hstate
      have honNext : next.controller.motorOn = true := by
        rw [hnextController]
        exact hon
      rw [ih hsound hnone hstateNext honNext]
      rfl

/-- A motor in execution goes round to its target, in its direction. -/
theorem plantRun_round {target : Nat} (h : Sound fw) (ht : fw.controller.tasks = [])
    (happ : fw.controller.userApplication =
      ⟨.execution, ⟨userApplicationMessagesCmdTypeSetStepperMotorAngle, .ok, target⟩⟩)
    (hon : fw.stepperMotor.pwmEnabled = true) (hposition : fw.position < 180)
    (htarget : target < 180) {fuel : Nat}
    (hfuel : edgesRound fw.stepperMotor.dirPin fw.encoder.recentlyEncounteredHomeEvent
      fw.position target ≤ fuel) :
    ∃ last visited, fw.plantRun fuel = some (last, visited) ∧
      visited.length = edgesRound fw.stepperMotor.dirPin fw.encoder.recentlyEncounteredHomeEvent
        fw.position target ∧
      last.state = .ready ∧ last.stepperMotor.pwmEnabled = false ∧ last.position = target ∧
      last.log = fw.log ++ Controller.arrival target := by
  induction fuel generalizing fw with
  | zero => exact absurd hfuel (Nat.not_le_of_gt (edgesRound_bounds _ _ hposition htarget).1)
  | succ fuel ih =>
    obtain ⟨next, hstep, hsound, hnone, hnext, hhome, hends⟩ := plantStep_idle h ht
    obtain ⟨hlt, hround⟩ := edgesRound_next fw.stepperMotor.dirPin
      fw.encoder.recentlyEncounteredHomeEvent hposition htarget hnext
    have hframe : responseFrame fw.controller.params = angleFrame .ok (2 * target) := by
      rw [responseFrame_eq, Controller.params, happ]
    rw [plantRun_on hon hstep, hround]
    rcases hends with ⟨hfinish, hready, hoff, hlog⟩ | ⟨hfinish, hnextController⟩
    · have hat : target = next.position := by
        rw [happ] at hfinish
        obtain ⟨_, _, heq | hstatus⟩ := hfinish
        · exact heq
        · exact absurd rfl hstatus
      rw [plantRun_off hoff, if_pos hat]
      refine ⟨next, [next.position], rfl, rfl, hready, hoff, hat.symm, ?_⟩
      rw [hlog, hframe]
      rfl
    · have hne : target ≠ next.position := by
        intro hat
        rw [happ] at hfinish
        exact hfinish ⟨rfl, rfl, .inl hat⟩
      have happNext := (congrArg Controller.userApplication hnextController).trans happ
      have honNext : next.stepperMotor = fw.stepperMotor :=
        congrArg Controller.stepperMotor hnextController
      have hlogNext : next.log = fw.log := congrArg Controller.log hnextController
      rw [if_neg hne] at hround ⊢
      rw [hround] at hfuel
      have hrest := ih hsound hnone happNext (by rw [honNext]; exact hon) hlt
      rw [honNext, hhome] at hrest
      obtain ⟨last, visited, hrun, hlength, hready, hoff, hat, hlog⟩ := hrest (by omega)
      rw [hrun]
      refine ⟨last, next.position :: visited, rfl, ?_, hready, hoff, hat, ?_⟩
      · rw [List.length_cons, hlength]
      · rw [hlog, hlogNext]

end Plant

/-- What is known of any state once the queue is drained. -/
theorem drained_from_reachable (inputs : List Input) {fw : Firmware (SchedulerParams Handler)}
    (hfw : (Machine.run Firmware.step start inputs).schedulerExecute (3 * schedulerMaxQueueSize) =
      some fw) : Sound fw ∧ fw.controller.tasks = [] ∧ fw.controller.Guided := by
  obtain ⟨hsound, hcontroller⟩ := run_sound start_sound inputs
  obtain ⟨hdrains, hnone⟩ := schedulerExecute_drains hsound
  obtain rfl := Option.some.inj (hdrains.symm.trans hfw)
  obtain ⟨hsoundLast, hlast⟩ :=
    run_sound hsound (List.replicate (3 * schedulerMaxQueueSize) .execute)
  refine ⟨hsoundLast, hnone, ?_⟩
  rw [hlast, hcontroller, start_related.2]
  exact Machine.run_invariant _ (Machine.run_invariant inputs Controller.start_guided
    fun _ i hc => Controller.step_guided hc i) fun _ i hc => Controller.step_guided hc i

/-- The application in execution of a valid position. -/
theorem Controller.Guided.userApplication_eq {c : Controller} (h : c.Guided)
    (hstate : c.state = .execution) (hok : c.params.respStatus = .ok) :
    c.userApplication = ⟨.execution,
      ⟨userApplicationMessagesCmdTypeSetStepperMotorAngle, .ok, c.params.positionRequested⟩⟩ := by
  have hsaved := h.saved
  rw [Controller.Saved] at hsaved
  rw [← hstate, ← hsaved, ← hok]
  rfl

/-- From whatever state the firmware has got into, with the queue drained: the plant rests
with the motor off; or it turns on without end before homing; or it goes round to the
requested position, once at most, stops there, and the one response is sent. -/
theorem plant_from_reachable (inputs : List Input) {fw : Firmware (SchedulerParams Handler)}
    (hfw : (Machine.run Firmware.step start inputs).schedulerExecute (3 * schedulerMaxQueueSize) =
      some fw) :
    (fw.stepperMotor.pwmEnabled = false ∧ ∀ fuel, fw.plantRun fuel = some (fw, [])) ∨
    (fw.state = .calibration ∧ ∀ fuel, fw.plantRun fuel = none) ∨
    (fw.state = .execution ∧
      let target := fw.controller.params.positionRequested
      let edges := edgesRound fw.stepperMotor.dirPin fw.encoder.recentlyEncounteredHomeEvent
        fw.position target
      edges ≤ 180 ∧ ∀ fuel ≥ edges, ∃ last visited, fw.plantRun fuel = some (last, visited) ∧
        visited.length = edges ∧ last.state = .ready ∧ last.stepperMotor.pwmEnabled = false ∧
        last.position = target ∧ last.log = fw.log ++ Controller.arrival target) := by
  obtain ⟨hsound, hnone, hguided⟩ := drained_from_reachable inputs hfw
  cases hon : fw.stepperMotor.pwmEnabled with
  | false => exact .inl ⟨rfl, plantRun_off hon⟩
  | true =>
    right
    cases hstate : fw.state with
    | calibration => exact .inl ⟨rfl, plantRun_calibration hsound hnone hstate hon⟩
    | ready => exact absurd ((hguided.ready_off hstate).symm.trans hon) Bool.false_ne_true
    | execution =>
      obtain ⟨hok, htarget⟩ := hguided.driven hstate hon
      refine .inr ⟨rfl, (edgesRound_bounds _ _ hguided.position_lt htarget).2, fun fuel hfuel => ?_⟩
      exact plantRun_round hsound hnone (hguided.userApplication_eq hstate hok) hon
        hguided.position_lt htarget hfuel

def Firmware.course (fw : Firmware (SchedulerParams Handler)) :
    UserApplicationStateMachineState × StepperMotorDrv × Bool × Nat × Nat :=
  (fw.state, fw.stepperMotor, fw.encoder.recentlyEncounteredHomeEvent, fw.position,
    fw.controller.params.positionRequested)

/-- One edge too far, and the motor goes round once more to come back. -/
theorem overshoot_goes_round :
    ∃ fw last visited, (Machine.run Firmware.step start
        (driven ++ cycle ++ cycle ++ cycle)).schedulerExecute (3 * schedulerMaxQueueSize) = some fw ∧
      fw.position = 2 ∧ fw.plantRun 180 = some (last, visited) ∧ visited.length = 179 ∧
      last.state = .ready ∧ last.position = 1 := by
  have hcourse : ((Machine.run Firmware.step start (driven ++ cycle ++ cycle ++ cycle)).schedulerExecute
      (3 * schedulerMaxQueueSize)).map Firmware.course =
        some (.execution, ⟨.anticlockwise, true⟩, false, 2, 1) := by decide
  obtain ⟨fw, hfw, hat⟩ := Option.map_eq_some_iff.mp hcourse
  simp only [Firmware.course, Prod.mk.injEq] at hat
  obtain ⟨hstate, hmotor, hhome, hposition, htarget⟩ := hat
  rcases plant_from_reachable _ hfw with ⟨hoff, _⟩ | ⟨hcalibration, _⟩ | ⟨_, _, hrun⟩
  · rw [hmotor] at hoff
    cases hoff
  · cases hcalibration.symm.trans hstate
  · rw [hmotor, hhome, hposition, htarget] at hrun
    obtain ⟨last, visited, hlast, hlength, hready, _, hlastPosition, _⟩ := hrun 180 (by decide)
    exact ⟨fw, last, visited, hfw, hposition, hlast, hlength, hready, hlastPosition⟩

end ClosedLoopStepper.Device
