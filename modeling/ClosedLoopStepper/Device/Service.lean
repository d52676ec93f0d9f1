import Mathlib.Data.Set.List
import ClosedLoopStepper.Commander.Main
import ClosedLoopStepper.Device.Angles
import ClosedLoopStepper.Device.StaleBytes

/-! What the device does to the motor and sends, as a language of its outputs: it homes
once, and then goes round after round, each with a stop and an answer, whether or not the motor
had to start. -/
namespace ClosedLoopStepper.Device
open Foundations Foundations.Framing Scheduler Ipc Encoder StepperMotor Application

/-- Before the homing, in it, between two rounds or with nothing to move, on the way to a
target, and stopped for an answer. -/
inductive Service
  | starting | homing | resting | moving | answering
  deriving DecidableEq, Repr

/-- The outputs that can come next. What the packet handler is given may come any time. -/
def Service.next : Service → Output → Option Service
  | service, .received _ _ => some service
  | .starting, .drive .clockwise => some .homing
  | .homing, .drive .stop => some .resting
  | .resting, .drive .clockwise => some .moving
  | .resting, .drive .anticlockwise => some .moving
  | .resting, .drive .stop => some .answering
  | .moving, .drive .stop => some .answering
  | .answering, .transmitted _ => some .resting
  | _, _ => none

def Service.after (service : Service) (log : List Output) : Option Service :=
  log.foldlM Service.next service

def Task.starts : Task → Bool
  | .stateMachine eventData => eventData.type = .internal
  | .postProcessing _ => false

namespace Controller

/-- Where the service is, told by the variables. The calibration is started by the first
event, and no other like it is pending before the homing. -/
inductive Serving (c : Controller) : Service → Prop
  | starting {rest : List Task} (hstate : c.state = .calibration) (hmotor : c.motorOn = false)
      (ht : c.tasks = .ofType .internal :: rest) (hrest : rest.any Task.starts = false) :
      Serving c .starting
  | homing (hstate : c.state = .calibration) (hmotor : c.motorOn = true)
      (ht : c.tasks.any Task.starts = false) : Serving c .homing
  | resting (hstate : c.state ≠ .calibration) (hmotor : c.motorOn = false) : Serving c .resting
  | moving (hstate : c.state = .execution) (hmotor : c.motorOn = true) : Serving c .moving

/-- The outputs so far are those of the service, and each frame sent answers a command. -/
structure Serves (c : Controller) : Prop where
  saved : c.Saved
  after_log : ∃ service, Service.starting.after c.log = some service ∧ c.Serving service
  command : c.state = .execution → ∃ cmd, c.userApplication = executing cmd
  responses : ∀ bytes ∈ c.log.filterMap Output.response, ∃ cmd,
    bytes = responseFrame (executing cmd).userApplicationStateMachineParams

variable {c : Controller}

theorem after_append {service next : Service} {log added : List Output}
    (h : Service.starting.after log = some service) (hadded : service.after added = some next) :
    Service.starting.after (log ++ added) = some next := by
  rw [Service.after, List.foldlM_append]
  change (Service.starting.after log).bind _ = _
  rw [h]
  exact hadded

theorem start_serves : start.Serves where
  saved := rfl
  after_log := ⟨.starting, rfl, .starting rfl rfl rfl rfl⟩
  command := nofun
  responses := nofun

/-- An interrupt adds tasks at the end, and none that starts a calibration. -/
theorem Serving.interrupted {service : Service} {next : Controller} (h : c.Serving service)
    (happ : next.userApplication = c.userApplication) (hmotor : next.stepperMotor = c.stepperMotor)
    (htasks : ∃ added, next.tasks = c.tasks ++ added ∧ added.any Task.starts = false) :
    next.Serving service := by
  obtain ⟨added, htasks, hadded⟩ := htasks
  have hstate : next.state = c.state := by rw [state, state, happ]
  have hon : next.motorOn = c.motorOn := by rw [motorOn, motorOn, hmotor]
  cases h with
  | @starting rest hcalibration hoff ht hrest =>
    have hnext : next.tasks = .ofType .internal :: (rest ++ added) := by
      rw [htasks, ht, List.cons_append]
    refine .starting (hstate.trans hcalibration) (hon.trans hoff) hnext ?_
    rw [List.any_append, hrest, hadded]
    rfl
  | homing hcalibration hmoving ht =>
    refine .homing (hstate.trans hcalibration) (hon.trans hmoving) ?_
    rw [htasks, List.any_append, ht, hadded]
    rfl
  | resting hne hoff => exact .resting (by rw [hstate]; exact hne) (hon.trans hoff)
  | moving hexecution hmoving => exact .moving (hstate.trans hexecution) (hon.trans hmoving)

theorem receiveByte_starts (c : Controller) (b : UInt8) :
    ∃ added, (c.receiveByte b).tasks = c.tasks ++ added ∧ added.any Task.starts = false := by
  rcases c.receiveByte_tasks b with h | ⟨params, h⟩
  · exact ⟨[], h.trans (List.append_nil _).symm, rfl⟩
  · exact ⟨_, h, rfl⟩

theorem pinTransition_starts (c : Controller) (gpio eventMask : Nat) (levelA levelB : Bool) :
    ∃ added, (c.pinTransition gpio eventMask levelA levelB).tasks = c.tasks ++ added ∧
      added.any Task.starts = false := by
  rcases c.pinTransition_tasks gpio eventMask levelA levelB with h | ⟨type, rfl | rfl, h⟩
  · exact ⟨[], h.trans (List.append_nil _).symm, rfl⟩
  · exact ⟨_, h, rfl⟩
  · exact ⟨_, h, rfl⟩

/-- A turn puts out what can come next. In each state the events that the others take
are ignored; before the homing the first event is the one that starts it. -/
theorem Serving.turn {service : Service} {eventData : UserApplicationStateMachineEventData}
    {rest : List Task} {next : Controller} (h : c.Serving service)
    (ht : c.tasks = .stateMachine eventData :: rest) (hturn : Turn c eventData rest next) :
    ∃ added later, next.log = c.log ++ added ∧ service.after added = some later ∧
      next.Serving later := by
  cases h with
  | @starting others hstate hmotor htasks hrest =>
    cases ht.symm.trans htasks
    cases hturn with
    | calibrate => exact ⟨[.drive .clockwise], .homing, rfl, rfl, .homing hstate rfl hrest⟩
    | home _ htype => cases htype
    | immediate haccept => cases haccept.2.1
    | anticlockwise haccept => cases haccept.2.1
    | clockwise haccept => cases haccept.2.1
    | finish hfinish => cases hstate.symm.trans hfinish.1
    | ignore _ _ hignored => rcases hignored hstate with htype | htype <;> cases htype
  | homing hstate hmotor htasks =>
    rw [ht, List.any_cons, Bool.or_eq_false_iff] at htasks
    cases hturn with
    | calibrate _ htype => exact absurd htasks.1 (by simp [Task.starts, htype])
    | home => exact ⟨[.drive .stop], .resting, rfl, rfl, .resting nofun rfl⟩
    | immediate haccept => cases hstate.symm.trans haccept.1
    | anticlockwise haccept => cases hstate.symm.trans haccept.1
    | clockwise haccept => cases hstate.symm.trans haccept.1
    | finish hfinish => cases hstate.symm.trans hfinish.1
    | ignore => exact ⟨[], .homing, (List.append_nil _).symm, rfl, .homing hstate hmotor htasks.2⟩
  | resting hstate hmotor =>
    cases hturn with
    | calibrate hcalibration => exact absurd hcalibration hstate
    | home hcalibration => exact absurd hcalibration hstate
    | immediate => exact ⟨[], .resting, (List.append_nil _).symm, rfl, .resting nofun hmotor⟩
    | anticlockwise => exact ⟨[.drive .anticlockwise], .moving, rfl, rfl, .moving rfl rfl⟩
    | clockwise => exact ⟨[.drive .clockwise], .moving, rfl, rfl, .moving rfl rfl⟩
    | finish => exact ⟨_, .resting, rfl, rfl, .resting nofun rfl⟩
    | ignore => exact ⟨[], .resting, (List.append_nil _).symm, rfl, .resting hstate hmotor⟩
  | moving hstate hmotor =>
    cases hturn with
    | calibrate hcalibration => cases hstate.symm.trans hcalibration
    | home hcalibration => cases hstate.symm.trans hcalibration
    | immediate haccept => cases hstate.symm.trans haccept.1
    | anticlockwise haccept => cases hstate.symm.trans haccept.1
    | clockwise haccept => cases hstate.symm.trans haccept.1
    | finish => exact ⟨_, .resting, rfl, rfl, .resting nofun rfl⟩
    | ignore => exact ⟨[], .moving, (List.append_nil _).symm, rfl, .moving hstate hmotor⟩

/-- After a packet at the front there is nothing left to start. -/
theorem Serving.packet {service : Service} {params : IpcReceivedDataPacketPostProcessingParams}
    {rest added : List Task} (h : c.Serving service) (ht : c.tasks = .postProcessing params :: rest)
    (hadded : added.any Task.starts = false) :
    ({ c with tasks := rest ++ added } : Controller).Serving service := by
  cases h with
  | starting _ _ htasks => cases ht.symm.trans htasks
  | homing hstate hmotor htasks =>
    rw [ht, List.any_cons, Bool.or_eq_false_iff] at htasks
    refine .homing hstate hmotor ?_
    rw [List.any_append, htasks.2, hadded]
    rfl
  | resting hstate hmotor => exact .resting hstate hmotor
  | moving hstate hmotor => exact .moving hstate hmotor

/-- Once the homing is over the pending tasks do not matter. -/
theorem Serving.retasked {service : Service} (h : c.Serving service) (hstate : c.state ≠ .calibration)
    (tasks : List Task) : ({ c with tasks } : Controller).Serving service := by
  cases h with
  | starting hcalibration => exact absurd hcalibration hstate
  | homing hcalibration => exact absurd hcalibration hstate
  | resting hne hmotor => exact .resting hne hmotor
  | moving hexecution hmotor => exact .moving hexecution hmotor

theorem Serves.interrupted {next : Controller} (h : c.Serves)
    (happ : next.userApplication = c.userApplication) (hmotor : next.stepperMotor = c.stepperMotor)
    (hlog : next.log = c.log)
    (htasks : ∃ added, next.tasks = c.tasks ++ added ∧ added.any Task.starts = false) :
    next.Serves := by
  obtain ⟨service, hafter, hserving⟩ := h.after_log
  refine ⟨?_, ⟨service, ?_, hserving.interrupted happ hmotor htasks⟩, ?_, ?_⟩
  · rw [Saved, params, happ]
    exact h.saved
  · rwa [hlog]
  · rw [state, happ]
    exact h.command
  · rw [hlog]
    exact h.responses

/-- A packet given to the application is put out at any time. -/
theorem Serves.received (h : c.Serves) (status : IpcReceptionStatus) (payload : List UInt8) :
    ({ c with log := c.log ++ [.received status payload] } : Controller).Serves := by
  obtain ⟨service, hafter, hserving⟩ := h.after_log
  refine ⟨h.saved, ⟨service, after_append hafter rfl, ?_⟩, h.command, ?_⟩
  · exact hserving.interrupted rfl rfl ⟨[], (List.append_nil _).symm, rfl⟩
  · simpa [List.filterMap_append, Output.response] using h.responses

theorem Serves.packet {params : IpcReceivedDataPacketPostProcessingParams} {rest added : List Task}
    (h : c.Serves) (ht : c.tasks = .postProcessing params :: rest)
    (hadded : added.any Task.starts = false) :
    ({ c with tasks := rest ++ added } : Controller).Serves := by
  obtain ⟨service, hafter, hserving⟩ := h.after_log
  exact ⟨h.saved, ⟨service, hafter, hserving.packet ht hadded⟩, h.command, h.responses⟩

theorem Serves.retasked (h : c.Serves) (hstate : c.state ≠ .calibration) (tasks : List Task) :
    ({ c with tasks } : Controller).Serves := by
  obtain ⟨service, hafter, hserving⟩ := h.after_log
  exact ⟨h.saved, ⟨service, hafter, hserving.retasked hstate tasks⟩, h.command, h.responses⟩

theorem Serves.turn {eventData : UserApplicationStateMachineEventData} {rest : List Task}
    {next : Controller} (h : c.Serves) (ht : c.tasks = .stateMachine eventData :: rest)
    (hturn : Turn c eventData rest next) : next.Serves := by
  obtain ⟨service, hlog, hserving⟩ := h.after_log
  obtain ⟨added, later, hadded, hlater, hnext⟩ := hserving.turn ht hturn
  refine ⟨hturn.saved h.saved, ⟨later, ?_, hnext⟩, ?_, ?_⟩
  · rw [hadded]
    exact after_append hlog hlater
  · cases hturn with
    | calibrate => exact h.command
    | home => exact nofun
    | immediate => exact fun _ => ⟨_, rfl⟩
    | anticlockwise => exact fun _ => ⟨_, rfl⟩
    | clockwise => exact fun _ => ⟨_, rfl⟩
    | finish => exact nofun
    | ignore => exact h.command
  · cases hturn with
    | finish hfinish =>
      obtain ⟨cmd, hcmd⟩ := h.command hfinish.1
      intro bytes hbytes
      rw [List.filterMap_append, List.mem_append] at hbytes
      rcases hbytes with hbefore | hsent
      · exact h.responses bytes hbefore
      · refine ⟨cmd, ?_⟩
        rw [← hcmd]
        exact List.mem_singleton.mp hsent
    | immediate => exact h.responses
    | ignore => exact h.responses
    | _ =>
      dsimp only
      rw [List.filterMap_append]
      simpa [Output.response] using h.responses

theorem Serving.motorOn_iff {service : Service} (h : c.Serving service) :
    c.motorOn = true ↔ service = .homing ∨ service = .moving := by
  cases h with
  | starting _ hmotor => simp [hmotor]
  | homing _ hmotor => simp [hmotor]
  | resting _ hmotor => simp [hmotor]
  | moving _ hmotor => simp [hmotor]

end Controller

def reading (position : Nat) : Commander.SmcOutcome :=
  if position < 180 then .achieved (2 * position) else .raised

private theorem smcOutcome_response (cmd : UserApplicationMessagesCmdSetStepperMotorAngle) :
    Commander.smcOutcome
        (some (response (executing cmd).userApplicationStateMachineParams).toBytes) =
      reading (requestedPosition cmd) := by
  have hbyte : requestedPosition cmd < 256 := Nat.mod_lt _ (by decide)
  have hangle : encoderDrvEncoderPositionToAngle (requestedPosition cmd) =
      2 * requestedPosition cmd := by
    change requestedPosition cmd * 360 / 180 = _
    omega
  have hfrom : Commander.fromBytes [UInt8.ofNat (2 * requestedPosition cmd % 256),
      UInt8.ofNat (2 * requestedPosition cmd / 256)] = 2 * requestedPosition cmd := by
    simp only [Commander.fromBytes, List.foldr_cons, List.foldr_nil, UInt8.toNat_ofNat']
    omega
  change Commander.smcOutcome (some [0, (commandStatus cmd).toByte,
    UInt8.ofNat (encoderDrvEncoderPositionToAngle (requestedPosition cmd) % 256),
    UInt8.ofNat (encoderDrvEncoderPositionToAngle (requestedPosition cmd) / 256)]) = _
  rw [hangle, reading]
  by_cases hlt : requestedPosition cmd < 180
  · rw [if_pos hlt, commandStatus, if_neg (by simpa using (valid_iff _).mpr hlt)]
    exact congrArg Commander.SmcOutcome.achieved hfrom
  · have hinvalid : encoderDrvIsEncoderPositionValid (requestedPosition cmd) = false := by
      rw [← Bool.not_eq_true, valid_iff]
      exact hlt
    rw [if_neg hlt, commandStatus, if_pos hinvalid]
    rfl

/-- Frames that each answer a command are read by the program one after another, with
nothing left over. -/
theorem receiveDataPackets_responses {frames : List (List UInt8)}
    (h : ∀ bytes ∈ frames, ∃ cmd, bytes =
      responseFrame (executing cmd).userApplicationStateMachineParams) :
    ∃ positions : List Nat, (Commander.receiveDataPackets positions.length frames.flatten).map
        (fun received => (received.1.map Commander.smcOutcome, received.2)) =
      some (positions.map reading, []) := by
  have hmem : frames ∈ Set.range (List.map
      fun cmd => responseFrame (executing cmd).userApplicationStateMachineParams) := by
    rw [Set.range_list_map]
    intro bytes hbytes
    obtain ⟨cmd, hcmd⟩ := h bytes hbytes
    exact ⟨cmd, hcmd.symm⟩
  obtain ⟨cmds, rfl⟩ := hmem
  let payload (cmd : UserApplicationMessagesCmdSetStepperMotorAngle) : List UInt8 :=
    (response (executing cmd).userApplicationStateMachineParams).toBytes
  have hpayloads : ∀ p ∈ cmds.map payload, ipcFormat.Admits p := by
    intro p hp
    obtain ⟨cmd, _, rfl⟩ := List.mem_map.mp hp
    exact response_admits _
  have hbytes : (cmds.map fun cmd =>
      responseFrame (executing cmd).userApplicationStateMachineParams).flatten =
        (cmds.map payload).flatMap ipcFormat.frame := by
    rw [List.flatMap_map, List.flatMap_def]
    rfl
  have hreceived := Commander.receiveDataPackets_frames hpayloads
  refine ⟨cmds.map requestedPosition, ?_⟩
  rw [hbytes, List.length_map, ← List.length_map payload, hreceived, Option.map_some]
  simp only [List.map_map]
  congr 2
  exact List.map_congr_left fun cmd _ => smcOutcome_response cmd

end ClosedLoopStepper.Device
