import ClosedLoopStepper.Device.Drain
import ClosedLoopStepper.Device.Execution

/-! Which angles are obeyed. The requested position is cut to a byte before its range is
checked, so an angle past the range is refused only when half of it, modulo 256, is. -/
namespace ClosedLoopStepper.Device
open Foundations Scheduler Ipc Encoder StepperMotor Application

def untilResponse : List Output → List Output
  | [] => []
  | .transmitted bytes :: _ => [.transmitted bytes]
  | .received status payload :: rest => .received status payload :: untilResponse rest
  | .drive drive :: rest => .drive drive :: untilResponse rest

/-- What is put out for the command whose turn comes next, when these inputs follow it. -/
def Firmware.served (fw : Firmware (SchedulerParams Handler)) (inputs : List Input) : List Output :=
  untilResponse ((Machine.run Firmware.step fw (.execute :: inputs)).log.drop fw.log.length)

def angleFrame (respStatus : UserApplicationMessagesRespStatus) (angleAchieved : Nat) : List UInt8 :=
  ipcFormat.frame (UserApplicationMessagesRespSetStepperMotorAngle.toBytes
    ⟨userApplicationMessagesRespTypeSetStepperMotorAngle, respStatus, angleAchieved⟩)

def Output.Obeys : Output → Prop
  | .drive .anticlockwise | .drive .clockwise => True
  | .transmitted bytes => ∃ angleAchieved, bytes = angleFrame .ok angleAchieved
  | _ => False

/-- For the command whose turn comes next: only an angle in the range is obeyed, whatever
follows, and any other one leaves the motor off and is refused by turns of the loop alone. -/
structure RangeKept (fw : Firmware (SchedulerParams Handler)) (angle : Nat) : Prop where
  obeyed : ∀ inputs, ∀ output ∈ fw.served inputs, output.Obeys → angle ≤ 359
  achieved : angle ≤ 359 → ∀ inputs bytes, .transmitted bytes ∈ fw.served inputs →
    bytes = angleFrame .ok (2 * (angle / 2))
  disabled : 360 ≤ angle → ∀ inputs, (∀ bytes, .transmitted bytes ∉ fw.served inputs) →
    (Machine.run Firmware.step fw (.execute :: inputs)).stepperMotor.pwmEnabled = false
  answered : 360 ≤ angle → ∃ turns angleAchieved,
    .transmitted (angleFrame .invalidAngleRequested angleAchieved) ∈
      fw.served (List.replicate turns .execute)

theorem requestedPosition_eq (cmd : UserApplicationMessagesCmdSetStepperMotorAngle) :
    requestedPosition cmd = cmd.angleRequested / 2 % 256 := by
  change cmd.angleRequested * 180 / 360 % 256 = _
  omega

theorem responseFrame_eq (params : UserApplicationStateMachineParams) :
    responseFrame params = angleFrame params.respStatus (2 * params.positionRequested) := by
  have hangle : encoderDrvEncoderPositionToAngle params.positionRequested =
      2 * params.positionRequested := by
    change params.positionRequested * 360 / 180 = _
    omega
  rw [responseFrame, response, hangle, angleFrame]

private theorem angleFrame_status {status status' : UserApplicationMessagesRespStatus}
    {angle angle' : Nat}
    (h : angleFrame status angle = angleFrame status' angle') : status = status' := by
  simp only [angleFrame, Framing.Format.frame, List.cons.injEq,
    UserApplicationMessagesRespSetStepperMotorAngle.toBytes, List.cons_append] at h
  have hbyte : status.toByte = status'.toByte := h.2.2.2.2.1
  cases status <;> cases status' <;> first | rfl | cases hbyte

private theorem untilResponse_received {quiet : List Output}
    (h : quiet.all Output.isReceived = true)
    (rest : List Output) : untilResponse (quiet ++ rest) = quiet ++ untilResponse rest := by
  induction quiet with
  | nil => rfl
  | cons output quiet ih =>
    rw [List.all_cons, Bool.and_eq_true] at h
    cases output with
    | received status payload => exact congrArg _ (ih h.2)
    | drive drive => cases h.1
    | transmitted bytes => cases h.1

namespace Controller
variable {c : Controller} {eventData : UserApplicationStateMachineEventData} {rest : List Task}

def servedIn (c last : Controller) : List Output := untilResponse (last.log.drop c.log.length)

private theorem servedIn_append {started more : List Output} {last : Controller}
    (hstarted : started = [] ∨ ∃ drive, started = [.drive drive])
    (hlog : last.log = c.log ++ (started ++ more)) :
    c.servedIn last = started ++ untilResponse more := by
  rw [servedIn, hlog, List.drop_left]
  rcases hstarted with rfl | ⟨drive, rfl⟩ <;> rfl

structure Taken (c : Controller) (eventData : UserApplicationStateMachineEventData)
    (rest : List Task) : Prop where
  saved : c.Saved
  restsReady : c.RestsReady
  tasks_eq : c.tasks = .stateMachine eventData :: rest
  accepts : Accepts c.userApplication eventData

theorem Taken.turn (h : c.Taken eventData rest) : Turn c eventData rest c.execute :=
  execute_turn h.saved h.tasks_eq

theorem Taken.params_eq (h : c.Taken eventData rest) :
    c.execute.params =
      (executing eventData.processCmdRequestEventData).userApplicationStateMachineParams := by
  rw [params, (h.turn.accepted h.accepts).1]

theorem Taken.executing (h : c.Taken eventData rest) : c.execute.state = .execution := by
  rw [state, (h.turn.accepted h.accepts).1]
  rfl

private theorem Taken.started (h : c.Taken eventData rest) :
    ∃ started, (started = [] ∨ ∃ drive, started = [.drive drive]) ∧
      (Immediate eventData.processCmdRequestEventData c.position → started = []) ∧
      c.execute.log = c.log ++ started := by
  rcases (h.turn.accepted h.accepts).2 with ⟨_, _, hlog, _⟩ | ⟨hmoves, _, _, drive, _, hlog⟩
  · exact ⟨[], .inl rfl, fun _ => rfl, hlog.trans (List.append_nil _).symm⟩
  · exact ⟨[.drive drive], .inr ⟨drive, rfl⟩, fun himmediate => absurd himmediate hmoves, hlog⟩

/-- How far a command has got after any inputs, with its outputs so far: the start of the
motor, packets given to the application, and the answer if it has come. -/
theorem Taken.served (h : c.Taken eventData rest) (inputs : List Input) :
    let last := Machine.run step c.execute inputs
    ∃ started quiet, quiet.all Output.isReceived = true ∧
      (started = [] ∨ ∃ drive, started = [.drive drive]) ∧
      (Immediate eventData.processCmdRequestEventData c.position → started = []) ∧
      (c.execute.StillExecuting last ∧ c.servedIn last = started ++ quiet ∨
        c.execute.Answered last ∧ c.servedIn last = started ++ (quiet ++ c.execute.answer)) := by
  intro last
  have hsaved : c.execute.Saved := step_saved h.saved .execute
  obtain ⟨started, hstarted, hnone, hlog⟩ := h.started
  rcases run_executing hsaved h.executing inputs with hstill | hanswered
  · obtain ⟨quiet, hquiet, hlast⟩ := hstill.log_eq
    have hall : last.log = c.log ++ (started ++ quiet) := by
      rw [hlast, hlog, List.append_assoc]
    refine ⟨started, quiet, hquiet, hstarted, hnone, .inl ⟨hstill, ?_⟩⟩
    rw [servedIn_append hstarted hall, ← List.append_nil quiet, untilResponse_received hquiet]
    rfl
  · obtain ⟨quiet, later, hquiet, hlast⟩ := id hanswered
    have hall : last.log = c.log ++ (started ++ (quiet ++ (c.execute.answer ++ later))) := by
      rw [hlast, hlog, List.append_assoc]
    refine ⟨started, quiet, hquiet, hstarted, hnone, .inr ⟨hanswered, ?_⟩⟩
    rw [servedIn_append hstarted hall, untilResponse_received hquiet]
    rfl

private theorem Taken.transmitted_iff (h : c.Taken eventData rest) {inputs : List Input}
    {bytes : List UInt8} :
    .transmitted bytes ∈ c.servedIn (Machine.run step c.execute inputs) ↔
      bytes = responseFrame c.execute.params ∧
        c.execute.Answered (Machine.run step c.execute inputs) := by
  obtain ⟨started, quiet, hquiet, hstarted, _, hserved⟩ := h.served inputs
  have hnot : .transmitted bytes ∉ started ++ quiet := by
    rw [List.mem_append, not_or]
    refine ⟨?_, not_mem_received hquiet rfl⟩
    rcases hstarted with rfl | ⟨drive, rfl⟩ <;> simp
  rcases hserved with ⟨hstill, hserved⟩ | ⟨hanswered, hserved⟩
  · rw [hserved]
    exact iff_of_false hnot fun hcarried => hstill.not_answered hcarried.2
  · rw [hserved, ← List.append_assoc, List.mem_append, or_iff_right hnot, and_iff_left hanswered]
    simp [answer]

private theorem Taken.obeys (h : c.Taken eventData rest)
    (himmediate : Immediate eventData.processCmdRequestEventData c.position) {inputs : List Input}
    {output : Output} (hmem : output ∈ c.servedIn (Machine.run step c.execute inputs))
    (hobeys : output.Obeys) : c.execute.params.respStatus = .ok := by
  cases output with
  | received status payload => exact hobeys.elim
  | transmitted bytes =>
    obtain ⟨angleAchieved, rfl⟩ := hobeys
    have hframe := (h.transmitted_iff.mp hmem).1
    rw [responseFrame_eq] at hframe
    exact (angleFrame_status hframe).symm
  | drive drive =>
    obtain ⟨started, quiet, hquiet, _, hnone, hserved⟩ := h.served inputs
    rw [hnone himmediate, List.nil_append, List.nil_append] at hserved
    have hnot := not_mem_received hquiet (rfl : (Output.drive drive).isReceived = false)
    rcases hserved with ⟨_, hserved⟩ | ⟨_, hserved⟩
    · rw [hserved] at hmem
      exact absurd hmem hnot
    · rw [hserved, List.mem_append] at hmem
      have hstop : drive = .stop := by simpa [answer] using hmem.resolve_left hnot
      rw [hstop] at hobeys
      exact hobeys.elim

private theorem Taken.motorOff (h : c.Taken eventData rest)
    (himmediate : Immediate eventData.processCmdRequestEventData c.position) {inputs : List Input}
    (hnone : ∀ bytes, .transmitted bytes ∉ c.servedIn (Machine.run step c.execute inputs)) :
    (Machine.run step c.execute inputs).motorOn = false := by
  have hsaved : c.execute.Saved := step_saved h.saved .execute
  rcases run_executing hsaved h.executing inputs with hstill | hanswered
  · rw [motorOn, hstill.motor_eq]
    rcases (h.turn.accepted h.accepts).2 with ⟨_, hmotor, _, _⟩ | ⟨hmoves, _⟩
    · rw [hmotor]
      exact h.restsReady h.accepts.1
    · exact absurd himmediate hmoves
  · exact absurd (h.transmitted_iff.mpr ⟨rfl, hanswered⟩) (hnone _)

/-- The answer to a refused command comes in the end exactly when its turn leaves a
prompting task pending. -/
theorem Taken.answered_iff (h : c.Taken eventData rest)
    (hrefused : c.execute.params.respStatus ≠ .ok) :
    (∃ turns, c.execute.Answered (Machine.run step c.execute (List.replicate turns .execute))) ↔
      c.execute.tasks.any Task.prompts = true := by
  have hsaved : c.execute.Saved := step_saved h.saved .execute
  constructor
  · rintro ⟨turns, hanswered⟩
    by_contra hnone
    rw [Bool.not_eq_true] at hnone
    exact (unprompted_unanswered hsaved h.executing hnone turns).not_answered hanswered
  · intro hany
    obtain ⟨p, hp⟩ := Option.isSome_iff_exists.mp (List.find?_isSome.mpr (List.any_eq_true.mp hany))
    obtain ⟨hprompts, front, back, htasks, hfront⟩ := List.find?_eq_some_iff_append.mp hp
    have hnone : front.any Task.prompts = false := by simpa using hfront
    exact refused_answered hsaved h.executing hrefused hprompts hnone htasks

private theorem Taken.prompted_iff (h : c.Taken eventData rest)
    (himmediate : Immediate eventData.processCmdRequestEventData c.position) :
    c.execute.tasks.any Task.prompts = true ↔
      rest.length + 1 < schedulerMaxQueueSize ∨ rest.any Task.prompts = true := by
  rcases (h.turn.accepted h.accepts).2 with ⟨_, _, _, htasks⟩ | ⟨hmoves, _⟩
  · rw [htasks, h.tasks_eq, List.length_cons, List.any_append, Bool.or_eq_true, or_comm]
    by_cases hroom : rest.length + 1 < schedulerMaxQueueSize
    · rw [if_pos hroom]
      exact iff_of_true (.inl rfl) (.inl hroom)
    · rw [if_neg hroom]
      simp [hroom]
  · exact absurd himmediate hmoves

end Controller

section Range
variable {fw : Firmware (SchedulerParams Handler)}
  {eventData : UserApplicationStateMachineEventData} {rest : List Task}

private theorem run_taken (h : Sound fw) (inputs : List Input) :
    (Machine.run Firmware.step fw (.execute :: inputs)).controller =
      Machine.run Controller.step fw.controller.execute inputs :=
  (run_sound h (.execute :: inputs)).2

private theorem served_controller (h : Sound fw) (inputs : List Input) :
    fw.served inputs =
      fw.controller.servedIn (Machine.run Controller.step fw.controller.execute inputs) := by
  rw [← run_taken h]
  rfl

private theorem status_eq_ok_iff (h : fw.controller.Taken eventData rest) :
    fw.controller.execute.params.respStatus = .ok ↔
      eventData.processCmdRequestEventData.angleRequested / 2 % 256 < 180 := by
  rw [h.params_eq, ← requestedPosition_eq, ← valid_iff]
  change commandStatus _ = .ok ↔ _
  rw [commandStatus]
  split <;> simp [*]

private theorem response_eq (h : fw.controller.Taken eventData rest) :
    responseFrame fw.controller.execute.params =
      angleFrame fw.controller.execute.params.respStatus
        (2 * (eventData.processCmdRequestEventData.angleRequested / 2 % 256)) := by
  rw [responseFrame_eq, h.params_eq, ← requestedPosition_eq]
  rfl

private theorem immediate_of_refused {cmd : UserApplicationMessagesCmdSetStepperMotorAngle}
    (hrefused : 180 ≤ cmd.angleRequested / 2 % 256) (currentEncoderPosition : Nat) :
    Immediate cmd currentEncoderPosition := by
  refine .inl ?_
  rw [← Bool.not_eq_true, valid_iff, requestedPosition_eq]
  omega

private theorem range_kept_of_le (hsound : Sound fw) (h : fw.controller.Taken eventData rest)
    (hle : eventData.processCmdRequestEventData.angleRequested ≤ 359) :
    RangeKept fw eventData.processCmdRequestEventData.angleRequested where
  obeyed _ _ _ _ := hle
  achieved _ inputs bytes hmem := by
    rw [served_controller hsound] at hmem
    rw [(h.transmitted_iff.mp hmem).1, response_eq h, (status_eq_ok_iff h).mpr (by omega),
      Nat.mod_eq_of_lt (by omega)]
  disabled hgt := by omega
  answered hgt := by omega

/-- A position past the range moves nothing and is refused. -/
theorem range_kept_of_refused (hsound : Sound fw) (h : fw.controller.Taken eventData rest)
    (hrefused : 180 ≤ eventData.processCmdRequestEventData.angleRequested / 2 % 256)
    (hprompted : fw.controller.execute.tasks.any Task.prompts = true) :
    RangeKept fw eventData.processCmdRequestEventData.angleRequested := by
  have hstatus : fw.controller.execute.params.respStatus ≠ .ok := by
    rw [Ne, status_eq_ok_iff h]
    omega
  have himmediate := immediate_of_refused hrefused fw.controller.position
  refine ⟨?_, fun hle => by omega, ?_, ?_⟩
  · intro inputs output hmem hobeys
    rw [served_controller hsound] at hmem
    exact absurd (h.obeys himmediate hmem hobeys) hstatus
  · intro _ inputs hnone
    rw [served_controller hsound] at hnone
    have hoff := h.motorOff himmediate hnone
    rw [← run_taken hsound] at hoff
    exact hoff
  · intro _
    obtain ⟨turns, hanswered⟩ := (h.answered_iff hstatus).mpr hprompted
    refine ⟨turns, 2 * (eventData.processCmdRequestEventData.angleRequested / 2 % 256), ?_⟩
    rw [served_controller hsound, h.transmitted_iff, response_eq h]
    refine ⟨?_, hanswered⟩
    cases hs : fw.controller.execute.params.respStatus with
    | ok => exact absurd hs hstatus
    | invalidAngleRequested => rfl

private theorem refused_of_range_kept (hsound : Sound fw) (h : fw.controller.Taken eventData rest)
    (hkept : RangeKept fw eventData.processCmdRequestEventData.angleRequested)
    (hgt : 360 ≤ eventData.processCmdRequestEventData.angleRequested) :
    180 ≤ eventData.processCmdRequestEventData.angleRequested / 2 % 256 ∧
      fw.controller.execute.tasks.any Task.prompts = true := by
  obtain ⟨turns, angleAchieved, hmem⟩ := hkept.answered hgt
  rw [served_controller hsound, h.transmitted_iff, response_eq h] at hmem
  have hstatus : fw.controller.execute.params.respStatus ≠ .ok := by
    rw [← angleFrame_status hmem.1]
    decide
  refine ⟨?_, (h.answered_iff hstatus).mp ⟨turns, hmem.2⟩⟩
  rw [Ne, status_eq_ok_iff h] at hstatus
  omega

end Range

/-- For every set angle command that the ready state takes, in any run: the range is kept
for it exactly when its angle is in the range, or the position it is cut to is not, and
its internal event finds room or another event that prompts the response is pending. -/
theorem range_kept_iff (before : List Input) (eventData : UserApplicationStateMachineEventData)
    (rest : List Task)
    (htasks : (Machine.run Firmware.step start before).controller.tasks =
      .stateMachine eventData :: rest)
    (haccept : Accepts (Machine.run Firmware.step start before).userApplication eventData) :
    let angle := eventData.processCmdRequestEventData.angleRequested
    RangeKept (Machine.run Firmware.step start before) angle ↔
      angle ≤ 359 ∨ 180 ≤ angle / 2 % 256 ∧
        (rest.length + 1 < schedulerMaxQueueSize ∨ rest.any Task.prompts = true) := by
  intro angle
  let fw := Machine.run Firmware.step start before
  obtain ⟨hsound, hrun⟩ := run_sound start_sound before
  have hrests : fw.controller.RestsReady := by
    rw [hrun, start_related.2]
    exact (Machine.run_invariant (P := fun c : Controller => c.Saved ∧ c.RestsReady) before
      ⟨Controller.start_saved, Controller.start_restsReady⟩
      fun c i hc => ⟨Controller.step_saved hc.1 i, Controller.step_restsReady hc.1 hc.2 i⟩).2
  have htaken : fw.controller.Taken eventData rest := ⟨hsound.saved, hrests, htasks, haccept⟩
  constructor
  · intro hkept
    by_cases hle : angle ≤ 359
    · exact .inl hle
    · obtain ⟨hrefused, hany⟩ := refused_of_range_kept hsound htaken hkept (by omega)
      exact .inr ⟨hrefused, (htaken.prompted_iff (immediate_of_refused hrefused _)).mp hany⟩
  · rintro (hle | ⟨hrefused, hprompted⟩)
    · exact range_kept_of_le hsound htaken hle
    · exact range_kept_of_refused hsound htaken hrefused
        ((htaken.prompted_iff (immediate_of_refused hrefused _)).mpr hprompted)

def asked (lsb msb : UInt8) : List Input :=
  [.execute, .pinTransition encoderDrvPinZHome gpioIrqEdgeRise false false, .execute] ++
    (ipcFormat.frame [0, lsb, msb]).map .receivedByte ++ [.execute]

/-- The angle 360 is cut to no position and refused. -/
theorem range_kept_at_360 :
    RangeKept (Machine.run Firmware.step start (asked 104 1)) 360 :=
  (range_kept_iff (asked 104 1) ⟨.processCmdRequest, ⟨0, 104, 1⟩⟩ [] (by decide)
    (by decide)).mpr (by decide)

/-- The angle 514 is cut to position one, and the motor is started towards it. -/
theorem angle_514_obeyed :
    let fw := Machine.run Firmware.step start (asked 2 2)
    fw.controller.tasks = [.stateMachine ⟨.processCmdRequest, ⟨0, 2, 2⟩⟩] ∧
      Accepts fw.userApplication ⟨.processCmdRequest, ⟨0, 2, 2⟩⟩ ∧
      UserApplicationMessagesCmdSetStepperMotorAngle.angleRequested ⟨0, 2, 2⟩ = 514 ∧
      ¬ RangeKept fw 514 := by
  intro fw
  refine ⟨by decide, by decide, rfl, fun hkept => ?_⟩
  have hstarted : Output.drive .anticlockwise ∈ fw.served [] := by decide
  exact absurd (hkept.obeyed [] _ hstarted trivial) (by decide)

end ClosedLoopStepper.Device
