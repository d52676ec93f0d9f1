import ClosedLoopStepper.Device.PreemptedController

/-! The service under preemption. A callback only adds tasks behind the one whose handler it
preempts, so what the handler has still to put out comes in the order it would have had. -/
namespace ClosedLoopStepper.Device
open Foundations Common Scheduler Ipc Encoder StepperMotor Application

namespace Controller

/-- After the calls that a handler has still to make, and without its own task; what these
calls queue is left out. -/
def remaining (c : Controller) (rest : List Task) (actions : List Action) : Controller :=
  { c with
    tasks := rest
    stepperMotor := (actions.filterMap driveCall).foldl StepperMotorDrv.drive c.stepperMotor
    log := c.log ++ actions.filterMap visible }

/-- What holds at each point of a turn. The running task is still the first one. -/
inductive Within (c : Controller) : TurnPoint → Prop
  | loop (h : c.Serves) : Within c .loop
  | verify {params : IpcReceivedDataPacketPostProcessingParams} {rest : List Task} (h : c.Serves)
      (ht : c.tasks = .postProcessing params :: rest)
      (params' : IpcReceivedDataPacketPostProcessingParams) (offset : Nat) (crc : UInt8) :
      Within c (.verify params' offset crc)
  | copy {params : IpcReceivedDataPacketPostProcessingParams} {rest : List Task} (h : c.Serves)
      (ht : c.tasks = .postProcessing params :: rest) (copied : List UInt8) :
      Within c (.copy copied)
  | handle {eventData : UserApplicationStateMachineEventData} {rest : List Task} (h : c.Serves)
      (ht : c.tasks = .stateMachine eventData :: rest) : Within c (.handle eventData)
  | perform {t : Task} {rest : List Task} {actions : List Action} (ht : c.tasks = t :: rest)
      (h : (c.remaining rest actions).Serves)
      (hput : actions.filterMap queuedTask ≠ [] → c.state ≠ .calibration) :
      Within c (.perform actions)
  | complete {t : Task} {rest : List Task} (ht : c.tasks = t :: rest)
      (h : ({ c with tasks := rest } : Controller).Serves) : Within c .complete

variable {c : Controller}

theorem Within.interrupted {point : TurnPoint} {next : Controller} (h : c.Within point)
    (happ : next.userApplication = c.userApplication) (hmotor : next.stepperMotor = c.stepperMotor)
    (hlog : next.log = c.log)
    (htasks : ∃ added, next.tasks = c.tasks ++ added ∧ added.any Task.starts = false) :
    next.Within point := by
  have hstate : next.state = c.state := by rw [state, state, happ]
  cases h with
  | loop h => exact .loop (h.interrupted happ hmotor hlog htasks)
  | verify h ht params' offset crc =>
    have hserves := h.interrupted happ hmotor hlog htasks
    obtain ⟨added, htasks, _⟩ := htasks
    rw [ht, List.cons_append] at htasks
    exact .verify hserves htasks params' offset crc
  | copy h ht copied =>
    have hserves := h.interrupted happ hmotor hlog htasks
    obtain ⟨added, htasks, _⟩ := htasks
    rw [ht, List.cons_append] at htasks
    exact .copy hserves htasks copied
  | handle h ht =>
    have hserves := h.interrupted happ hmotor hlog htasks
    obtain ⟨added, htasks, _⟩ := htasks
    rw [ht, List.cons_append] at htasks
    exact .handle hserves htasks
  | @perform t rest actions ht h hput =>
    obtain ⟨added, htasks, hadded⟩ := htasks
    rw [ht, List.cons_append] at htasks
    refine .perform htasks (h.interrupted happ ?_ ?_ ⟨added, rfl, hadded⟩) (by rwa [hstate])
    · rw [remaining, remaining, hmotor]
    · rw [remaining, remaining, hlog]
  | complete ht h =>
    obtain ⟨added, htasks, hadded⟩ := htasks
    rw [ht, List.cons_append] at htasks
    exact .complete htasks (h.interrupted happ hmotor hlog ⟨added, rfl, hadded⟩)

private theorem queued_calibrated (hsaved : c.Saved)
    (eventData : UserApplicationStateMachineEventData) :
    let next := userApplicationStateMachineEventHandler c.userApplication c.position eventData
    next.2.filterMap queuedTask ≠ [] → next.1.userApplicationStateMachineState ≠ .calibration := by
  have htransition := handler_transition c.position eventData fun _ => hsaved
  generalize userApplicationStateMachineEventHandler c.userApplication c.position eventData = next
    at htransition
  cases htransition with
  | accept => exact fun _ => by rw [setStepperMotorAngle_app]; nofun
  | calibrate => exact fun hne => absurd rfl hne
  | home => exact fun hne => absurd rfl hne
  | finish => exact fun hne => absurd rfl hne
  | ignore => exact fun hne => absurd rfl hne

/-- The state machine has decided: its calls are still to come, in the order of the service. -/
theorem Within.handled {eventData : UserApplicationStateMachineEventData}
    (h : c.Within (.handle eventData)) :
    let next := userApplicationStateMachineEventHandler c.userApplication c.position eventData
    ({ c with userApplication := next.1 } : Controller).Within (.perform next.2) := by
  cases h with
  | @handle _ rest h ht =>
    intro next
    refine .perform ht ?_ (queued_calibrated h.saved eventData)
    have hturn := runStateMachine_turn h.saved ht
    have hserves := h.turn ht hturn
    have htasks := runStateMachine_tasks h.saved ht
    change ({ c.runStateMachine eventData with tasks := rest } : Controller).Serves
    by_cases hqueued : next.2.filterMap queuedTask = []
    · rw [hqueued, ite_self, List.append_nil] at htasks
      rwa [← htasks]
    · exact hserves.retasked (queued_calibrated h.saved eventData hqueued) rest

private theorem Within.performed {action : Action} {actions : List Action}
    (h : c.Within (.perform (action :: actions))) : (c.perform action).Within (.perform actions) := by
  cases h with
  | @perform t rest _ ht h hput =>
    have hsame (tasks : List Task) : (c.perform action).remaining tasks actions =
        { c.remaining rest (action :: actions) with tasks } := by
      cases action <;> simp [remaining, Controller.perform, driveCall, visible, List.filterMap_cons]
    cases hq : queuedTask action with
    | none =>
      have htasks : (c.perform action).tasks = t :: rest := by
        rw [Controller.perform, hq]
        exact ht
      refine .perform htasks (by rwa [hsame]) fun hne => hput ?_
      rwa [List.filterMap_cons_none hq]
    | some queued =>
      have hstate : c.state ≠ .calibration := hput (by simp [hq])
      obtain ⟨added, hadded⟩ := prefix_offerAll c.tasks [queued]
      have htasks : (c.perform action).tasks = t :: (rest ++ added) := by
        rw [Controller.perform, hq, Option.toList_some, ← hadded, ht, List.cons_append]
      refine .perform htasks ?_ fun _ => hstate
      rw [hsame]
      exact h.retasked hstate _

/-- The outputs so far come in the order of the service, and the motor is as they leave it. -/
def Tracks (c : Controller) : Prop :=
  ∃ service, Service.starting.after c.log = some service ∧
    (c.motorOn = true ↔ service = .homing ∨ service = .moving)

private theorem Serves.tracks (h : c.Serves) : c.Tracks := by
  obtain ⟨service, hafter, hserving⟩ := h.after_log
  exact ⟨service, hafter, hserving.motorOn_iff⟩

private theorem after_prefix {service last : Service} {log added : List Output}
    (h : service.after (log ++ added) = some last) :
    ∃ middle, service.after log = some middle ∧ middle.after added = some last := by
  rw [Service.after, List.foldlM_append] at h
  exact Option.bind_eq_some_iff.mp h

private theorem Within.serves {point : TurnPoint} (h : c.Within point) :
    ∃ last : Controller, last.Serves ∧ c.log <+: last.log := by
  cases h with
  | loop h => exact ⟨c, h, List.prefix_rfl⟩
  | verify h => exact ⟨c, h, List.prefix_rfl⟩
  | copy h => exact ⟨c, h, List.prefix_rfl⟩
  | handle h => exact ⟨c, h, List.prefix_rfl⟩
  | perform _ h => exact ⟨_, h, List.prefix_append _ _⟩
  | complete _ h => exact ⟨_, h, List.prefix_rfl⟩

private theorem Tracks.performed {action : Action} {actions : List Action} (htracks : c.Tracks)
    (h : c.Within (.perform (action :: actions))) : (c.perform action).Tracks := by
  obtain ⟨service, hafter, hmotor⟩ := htracks
  have hnext : ∃ later, service.after (visible action).toList = some later := by
    cases h with
    | @perform _ rest _ _ h _ =>
      obtain ⟨last, hlast, _⟩ := h.after_log
      have hsplit : (c.remaining rest (action :: actions)).log =
          c.log ++ ((visible action).toList ++ actions.filterMap visible) := by
        change c.log ++ (action :: actions).filterMap visible = _
        rw [List.filterMap_cons]
        cases visible action <;> rfl
      rw [hsplit] at hlast
      obtain ⟨middle, hmiddle, hrest⟩ := after_prefix hlast
      cases hafter.symm.trans hmiddle
      obtain ⟨later, hlater, _⟩ := after_prefix hrest
      exact ⟨later, hlater⟩
  obtain ⟨later, hlater⟩ := hnext
  refine ⟨later, after_append hafter hlater, ?_⟩
  cases action with
  | schedulerEventPut eventData =>
    cases hlater
    exact hmotor
  | drive drive =>
    cases service <;> cases drive <;> cases hlater <;>
      simp [motorOn, Controller.perform, driveCall, StepperMotorDrv.drive,
        stepperMotorDrvDriveAnticlockwise, stepperMotorDrvDriveClockwise, stepperMotorDrvDriveStop]
  | ipcSendDataPacket dataPacket =>
    cases service <;> cases hlater
    simpa [motorOn, Controller.perform, driveCall] using hmotor

end Controller

structure Serving (s : PreemptedController) : Prop where
  within : s.controller.Within s.point
  tracks : s.controller.Tracks

section Serving
variable {c : Controller}

private theorem advance_loop (h : Serving ⟨c, .loop⟩) : Serving
    (PreemptedController.advance c .loop) := by
  have hserves : c.Serves := by
    cases h.within with
    | loop h => exact h
  rw [PreemptedController.advance]
  split
  · exact h
  · exact ⟨.verify hserves ‹_› _ _ _, h.tracks⟩
  · exact ⟨.handle hserves ‹_›, h.tracks⟩

private theorem advance_verify {params : IpcReceivedDataPacketPostProcessingParams} {offset : Nat}
    {crc : UInt8} (h : Serving ⟨c, .verify params offset crc⟩) :
    Serving (PreemptedController.advance c (.verify params offset crc)) := by
  cases h.within with
  | verify hserves ht =>
    rw [PreemptedController.advance]
    split
    · exact ⟨.verify hserves ht _ _ _, h.tracks⟩
    · have hreceived := hserves.received
      split
      · have hnext := hreceived .ok (c.ipc.received params.receivedDataSize.toNat)
        exact ⟨.copy hnext ht [], hnext.tracks⟩
      · have hnext := hreceived .packetCorrupted (c.ipc.received params.receivedDataSize.toNat)
        refine ⟨.complete ht ?_, hnext.tracks⟩
        have hpacket := hnext.packet ht (rfl : ([] : List Task).any Task.starts = false)
        rwa [List.append_nil] at hpacket

private theorem advance_copy {copied : List UInt8} (h : Serving ⟨c, .copy copied⟩) :
    Serving (PreemptedController.advance c (.copy copied)) := by
  cases h.within with
  | @copy _ rest hserves ht =>
    rw [PreemptedController.advance]
    split
    · exact ⟨.copy hserves ht _, h.tracks⟩
    · obtain ⟨added, htasks, hadded⟩ : ∃ added,
          offer c.tasks (.stateMachine ⟨.processCmdRequest, .ofMemory (pointer copied)⟩) =
            c.tasks ++ added ∧ added.any Task.starts = false := by
        rw [offer]
        split
        · exact ⟨_, rfl, rfl⟩
        · exact ⟨[], (List.append_nil _).symm, rfl⟩
      have hcons : c.tasks ++ added = _ :: (rest ++ added) := congrArg (· ++ added) ht
      exact ⟨.complete (htasks.trans hcons) (hserves.packet ht hadded), h.tracks⟩

private theorem advance_serving {point : TurnPoint} (h : Serving ⟨c, point⟩) :
    Serving (PreemptedController.advance c point) := by
  cases point with
  | loop => exact advance_loop h
  | verify params offset crc => exact advance_verify h
  | copy copied => exact advance_copy h
  | handle eventData => exact ⟨h.within.handled, h.tracks⟩
  | perform actions =>
    cases actions with
    | nil =>
      cases h.within with
      | @perform _ rest _ ht hserves =>
        have hnext : ({ c with tasks := rest } : Controller).Serves := by
          simpa [Controller.remaining] using hserves
        exact ⟨.complete ht hnext, h.tracks⟩
    | cons action actions => exact ⟨h.within.performed, h.tracks.performed h.within⟩
  | complete =>
    cases h.within with
    | complete ht hserves =>
      refine ⟨.loop ?_, h.tracks⟩
      change ({ c with tasks := c.tasks.tail } : Controller).Serves
      rwa [ht]

private theorem step_serving {s : PreemptedController} (h : Serving s) (i : PreemptedInput) :
    Serving (s.step i) := by
  cases i with
  | receivedByte b =>
    exact ⟨h.within.interrupted rfl rfl rfl (s.controller.receiveByte_starts b), h.tracks⟩
  | pinTransition gpio eventMask levelA levelB =>
    exact ⟨h.within.interrupted rfl rfl rfl (s.controller.pinTransition_starts _ _ _ _), h.tracks⟩
  | advance => exact advance_serving h

private theorem start_serving : Serving .start :=
  ⟨.loop Controller.start_serves, Controller.start_serves.tracks⟩

/-- All that is sent answers commands. -/
theorem Serving.responses {s : PreemptedController} (h : Serving s) :
    ∀ bytes ∈ s.controller.log.filterMap Output.response, ∃ cmd,
      bytes = responseFrame (executing cmd).userApplicationStateMachineParams := by
  obtain ⟨last, hserves, more, hmore⟩ := h.within.serves
  intro bytes hbytes
  refine hserves.responses bytes ?_
  rw [← hmore, List.filterMap_append]
  exact List.mem_append_left _ hbytes

end Serving

private theorem run_serving (inputs : List PreemptedInput) :
    Serving (Machine.run PreemptedFirmware.step preemptedStart inputs).view.typed := by
  rw [run_preempted]
  exact Machine.run_invariant inputs start_serving fun _ i h => step_serving h i

/-- In every run in which the callbacks come between any two steps of the handlers, the outputs
come in the order of the service, the motor is on exactly in the homing and on the way to a
target, and no turn ends between a stop and its answer. -/
theorem preempted_outputs_serve (inputs : List PreemptedInput) :
    let s := Machine.run PreemptedFirmware.step preemptedStart inputs
    ∃ service, Service.starting.after s.firmware.log = some service ∧
      (s.firmware.stepperMotor.pwmEnabled = true ↔ service = .homing ∨ service = .moving) ∧
      (s.point = .loop → service ≠ .answering) := by
  intro s
  obtain ⟨hwithin, service, hafter, htracks⟩ := run_serving inputs
  refine ⟨service, hafter, htracks, fun hloop => ?_⟩
  have hpoint : s.view.typed.point = .loop := hloop
  rw [hpoint] at hwithin
  cases hwithin with
  | loop h =>
    obtain ⟨last, hlast, hserves⟩ := h.after_log
    cases hafter.symm.trans hlast
    rintro rfl
    cases hserves

/-- Whatever such a run receives, everything the device has sent is read by the commander as
one response after another, with nothing left over: each is either an angle below 360 that
the encoder has a position for, or a refusal. -/
theorem responses_read (inputs : List PreemptedInput) :
    let s := Machine.run PreemptedFirmware.step preemptedStart inputs
    ∃ positions : List Nat,
      (Commander.receiveDataPackets positions.length
          (s.firmware.log.filterMap Output.response).flatten).map
        (fun received => (received.1.map Commander.smcOutcome, received.2)) =
      some (positions.map reading, []) :=
  receiveDataPackets_responses (run_serving inputs).responses

end ClosedLoopStepper.Device
