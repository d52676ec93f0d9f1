import ClosedLoopStepper.Device.PreemptedTurn

/-! Preempted turns over typed tasks. What the firmware does between two of its steps is said
of the controller, as it is for whole turns. -/
namespace ClosedLoopStepper.Device
open Foundations Common Scheduler Ipc Encoder StepperMotor Application

section Arrays

def PreemptedFirmware.view (s : PreemptedFirmware (SchedulerParams Handler)) :
    PreemptedFirmware (BoundedFifo Handler) :=
  ⟨s.firmware.view, s.point⟩

/-- The arrays are coherent, and hold the running event while a turn lasts. -/
structure PreemptedFirmware.Coherent (s : PreemptedFirmware (SchedulerParams Handler)) : Prop where
  firmware : Device.Coherent s.firmware
  running : s.point ≠ .loop → (EventQueue.current s.view.firmware.scheduler).isSome

variable {s : PreemptedFirmware (SchedulerParams Handler)}

private theorem PreemptedFirmware.Coherent.beside (h : s.Coherent) :
    Beside (fun params (fifo : BoundedFifo Handler) => Denotes params fifo.events) s s.view :=
  ⟨rfl, _, ⟨h.firmware, h.running⟩, rfl⟩

private theorem PreemptedFirmware.coherent_of_beside {s' : PreemptedFirmware (BoundedFifo Handler)}
    (h : Beside (fun params (fifo : BoundedFifo Handler) => Denotes params fifo.events) s s') :
    s.Coherent ∧ s.view = s' := by
  obtain ⟨firmware', point'⟩ := s'
  obtain ⟨hpoint, fifo, ⟨hdenotes, hrunning⟩, heq⟩ := h
  change s.point = point' at hpoint
  change firmware' = s.firmware.over fifo at heq
  subst hpoint heq
  obtain ⟨hcoherent, hview⟩ := keeps_of_alongside ⟨fifo, hdenotes, rfl⟩
  refine ⟨⟨hcoherent, fun hne => ?_⟩, ?_⟩
  · rw [view, hview]
    exact hrunning hne
  · rw [view, hview]

private theorem preempted_firmware_refinement :
    Machine.Refinement PreemptedFirmware.step PreemptedFirmware.step PreemptedFirmware.view
      PreemptedFirmware.Coherent where
  keeps _ i h := (PreemptedFirmware.coherent_of_beside
    (PreemptedFirmware.step_beside arrays_simulation h.beside i)).1
  follows _ i h := (PreemptedFirmware.coherent_of_beside
    (PreemptedFirmware.step_beside arrays_simulation h.beside i)).2

end Arrays

namespace Controller

def perform (c : Controller) (action : Action) : Controller :=
  { c with
    tasks := (queuedTask action).toList.foldl offer c.tasks
    stepperMotor := (driveCall action).toList.foldl StepperMotorDrv.drive c.stepperMotor
    log := c.log ++ (visible action).toList }

def receive (c : Controller) (status : IpcReceptionStatus) (size : Nat) : Controller :=
  { c with log := c.log ++ [.received status (c.ipc.received size)] }

def complete (c : Controller) : Controller := { c with tasks := c.tasks.tail }

end Controller

structure PreemptedController where
  controller : Controller
  point : TurnPoint

namespace PreemptedController

def advance (c : Controller) : TurnPoint → PreemptedController
  | .loop =>
    match c.tasks with
    | [] => ⟨c, .loop⟩
    | .postProcessing params :: _ => ⟨c, .verify params 0 0⟩
    | .stateMachine eventData :: _ => ⟨c, .handle eventData⟩
  | .verify params offset crc =>
    if offset < params.receivedDataSize.toNat then
      ⟨c, .verify params (offset + 1) (crc ^^^ c.ipc.ipcReceivedDataPacketBuffer offset)⟩
    else if crc = params.expectedDataCrc then
      ⟨c.receive .ok params.receivedDataSize.toNat, .copy []⟩
    else ⟨c.receive .packetCorrupted params.receivedDataSize.toNat, .complete⟩
  | .copy copied =>
    if copied.length < commandFrameSize then
      ⟨c, .copy (copied ++ [c.ipc.ipcReceivedDataPacketBuffer copied.length])⟩
    else
      ⟨{ c with
        tasks := offer c.tasks (.stateMachine ⟨.processCmdRequest, .ofMemory (pointer copied)⟩) },
        .complete⟩
  | .handle eventData =>
    let next := userApplicationStateMachineEventHandler c.userApplication c.position eventData
    ⟨{ c with userApplication := next.1 }, .perform next.2⟩
  | .perform [] => ⟨c, .complete⟩
  | .perform (action :: rest) => ⟨c.perform action, .perform rest⟩
  | .complete => ⟨c.complete, .loop⟩

def step (s : PreemptedController) : PreemptedInput → PreemptedController
  | .receivedByte receivedData => ⟨s.controller.receiveByte receivedData, s.point⟩
  | .pinTransition gpio eventMask levelA levelB =>
    ⟨s.controller.pinTransition gpio eventMask levelA levelB, s.point⟩
  | .advance => advance s.controller s.point

def start : PreemptedController := ⟨.start, .loop⟩

end PreemptedController

section Typed
variable {fw : QueuedFirmware}

def PreemptedFirmware.typed (s : PreemptedFirmware (BoundedFifo Handler)) : PreemptedController :=
  ⟨s.firmware.typed, s.point⟩

structure PreemptedFollows (s : PreemptedFirmware (BoundedFifo Handler)) (next : PreemptedController) :
    Prop where
  regular : Regular s.firmware
  typed_eq : s.typed = next

theorem Follows.at {next : Controller} (h : Follows fw next) (point : TurnPoint) :
    PreemptedFollows ⟨fw, point⟩ ⟨next, point⟩ := by
  obtain ⟨hregular, rfl⟩ := h
  exact ⟨hregular, rfl⟩

private theorem perform_follows (h : Regular fw) (action : Action) :
    Follows (fw.perform action) (fw.typed.perform action) := by
  refine follows_of_queue h (perform_queue h.queue_eq action) ?_ rfl ⟨rfl, rfl⟩
  cases action with
  | drive drive => rfl
  | schedulerEventPut eventData =>
    simp [Firmware.typed, Firmware.perform, Firmware.putEvent, Firmware.put, driveCall, visible,
      Controller.perform]
  | ipcSendDataPacket dataPacket => rfl

private theorem emit_follows (h : Regular fw) (output : Output) :
    Follows (fw.emit output) { fw.typed with log := fw.log ++ [output] } :=
  follows_of_queue h h.queue_eq rfl rfl ⟨rfl, rfl⟩

private theorem advance_loop_follows (h : Regular fw) :
    PreemptedFollows (PreemptedFirmware.advance fw .loop)
      (PreemptedController.advance fw.typed .loop) := by
  have hqueue := h.queue_eq
  rw [PreemptedFirmware.advance, PreemptedController.advance]
  cases ht : fw.tasks with
  | nil =>
    rw [ht] at hqueue
    have hnone : EventQueue.current fw.scheduler = none := congrArg List.head? hqueue
    have htyped : fw.typed.tasks = [] := ht
    rw [hnone, htyped]
    exact ⟨h, rfl⟩
  | cons t rest =>
    rw [ht] at hqueue
    have hsome : EventQueue.current fw.scheduler = some t.event := congrArg List.head? hqueue
    have htyped : fw.typed.tasks = t :: rest := ht
    rw [hsome, htyped]
    cases t with
    | postProcessing params => exact ⟨h, rfl⟩
    | stateMachine eventData =>
      have henter : PreemptedFirmware.enter fw (Task.stateMachine eventData).event =
          ⟨fw, .handle eventData⟩ := by
        simp [PreemptedFirmware.enter, Task.event]
      dsimp only
      rw [henter]
      exact ⟨h, rfl⟩

private theorem advance_follows (h : Regular fw) (point : TurnPoint) :
    PreemptedFollows (PreemptedFirmware.advance fw point)
      (PreemptedController.advance fw.typed point) := by
  cases point with
  | loop => exact advance_loop_follows h
  | verify params offset crc =>
    rw [PreemptedFirmware.advance, PreemptedController.advance]
    split
    · exact ⟨h, rfl⟩
    · rw [PreemptedFirmware.verified, h.packetHandler]
      dsimp only
      split
      · exact (emit_follows h _).at _
      · exact (emit_follows h _).at _
  | copy copied =>
    rw [PreemptedFirmware.advance, PreemptedController.advance]
    split
    · exact ⟨h, rfl⟩
    · exact Follows.at (follows_of_queue h (put_queue_event h.queue_eq (.stateMachine _)) rfl rfl
        ⟨rfl, rfl⟩) _
  | handle eventData => exact Follows.at (follows_of_queue h h.queue_eq rfl rfl ⟨rfl, rfl⟩) _
  | perform actions =>
    cases actions with
    | nil => exact ⟨h, rfl⟩
    | cons action rest => exact (perform_follows h action).at _
  | complete =>
    exact Follows.at (follows_of_queue h
      ((congrArg List.tail h.queue_eq).trans List.map_tail.symm) rfl rfl ⟨rfl, rfl⟩) _

private theorem preempted_step_follows {s : PreemptedFirmware (BoundedFifo Handler)}
    (h : Regular s.firmware) (i : PreemptedInput) : PreemptedFollows (s.step i) (s.typed.step i) := by
  cases i with
  | receivedByte b => exact (receiveByte_follows h b).at _
  | pinTransition gpio eventMask levelA levelB => exact (pinTransition_follows h _ _ _ _).at _
  | advance => exact advance_follows h s.point

private theorem preempted_controller_refinement :
    Machine.Refinement PreemptedFirmware.step PreemptedController.step PreemptedFirmware.typed
      (fun s => Regular s.firmware) where
  keeps _ i h := (preempted_step_follows h i).regular
  follows _ i h := (preempted_step_follows h i).typed_eq

end Typed

def preemptedStart : PreemptedFirmware (SchedulerParams Handler) := ⟨start, .loop⟩

/-- The two refinements in a row. -/
theorem preempted_refinement :
    Machine.Refinement PreemptedFirmware.step PreemptedController.step
      (fun s : PreemptedFirmware (SchedulerParams Handler) => s.view.typed)
      (fun s => s.Coherent ∧ Regular s.view.firmware) :=
  preempted_firmware_refinement.trans preempted_controller_refinement

theorem preemptedStart_related : (preemptedStart.Coherent ∧ Regular preemptedStart.view.firmware) ∧
    preemptedStart.view.typed = .start :=
  ⟨⟨⟨start_related.1.1, fun hne => absurd rfl hne⟩, start_related.1.2⟩,
    congrArg (PreemptedController.mk · .loop) start_related.2⟩

/-- A preempted run of the firmware is one of the controller. -/
theorem run_preempted (inputs : List PreemptedInput) :
    (Machine.run PreemptedFirmware.step preemptedStart inputs).view.typed =
      Machine.run PreemptedController.step .start inputs := by
  rw [(preempted_refinement.run_view preemptedStart_related.1 inputs).2, preemptedStart_related.2]

end ClosedLoopStepper.Device
