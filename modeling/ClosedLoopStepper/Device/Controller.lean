import ClosedLoopStepper.Ipc.Receiver
import ClosedLoopStepper.Device.Refinement

/-! The firmware as a controller over typed tasks. The application registers its handlers
once, so the queue only ever holds two kinds of events, and what each step does is said
without their bytes. -/
namespace ClosedLoopStepper.Device
open Foundations Common Scheduler Ipc Encoder StepperMotor Application

inductive Task
  | postProcessing (params : IpcReceivedDataPacketPostProcessingParams)
  | stateMachine (eventData : UserApplicationStateMachineEventData)
  deriving DecidableEq, Repr

namespace Task

def event : Task → SchedulerEvent Handler
  | postProcessing params => ⟨.ipcReceivedDataPacketPostProcessing, params.toBytes⟩
  | stateMachine eventData => ⟨.userApplicationStateMachine, eventData.toBytes⟩

def ofEvent (e : SchedulerEvent Handler) : Option Task :=
  match e.handler with
  | .ipcReceivedDataPacketPostProcessing => some (postProcessing (.ofBytes e.data))
  | .userApplicationStateMachine =>
    (UserApplicationStateMachineEventData.ofBytes e.data).map stateMachine
  | _ => none

@[simp] theorem ofEvent_event (t : Task) : ofEvent t.event = some t := by
  cases t with
  | postProcessing params => rfl
  | stateMachine eventData => simp [ofEvent, event]

theorem event_length (t : Task) : t.event.data.length ≤ schedulerMaxDataBufferSize := by
  cases t <;> simp [event, IpcReceivedDataPacketPostProcessingParams.toBytes,
    UserApplicationStateMachineEventData.toBytes, schedulerMaxDataBufferSize]

/-- The task of an event initialised with its type only. -/
def ofType (type : UserApplicationStateMachineEventType) : Task := stateMachine (.ofType type)

def prompts : Task → Bool
  | postProcessing _ => false
  | stateMachine eventData => eventData.type.prompts

end Task

def offer (tasks : List Task) (t : Task) : List Task :=
  if tasks.length < schedulerMaxQueueSize then tasks ++ [t] else tasks

abbrev QueuedFirmware := Firmware (BoundedFifo Handler)

def Firmware.tasks (fw : QueuedFirmware) : List Task := fw.queue.filterMap Task.ofEvent

structure Regular (fw : QueuedFirmware) : Prop where
  queue_eq : fw.queue = fw.tasks.map Task.event
  packetHandler : fw.ipc.ipcDataPacketReceivedEventHandler =
    some .userApplicationProcessReceivedDataPacket
  encoderHandlers : fw.encoder.eventHandlers =
    ⟨some .userApplicationEncoderStepActivity, some .userApplicationEncoderHomeActivity⟩
  encoderHandling : fw.encoder.eventHandling = .immediate

/-- The firmware's variables with the queue as a list of tasks. -/
structure Controller where
  tasks : List Task
  ipc : IpcComponent Handler
  encoder : EncoderDrv Handler
  stepperMotor : StepperMotorDrv
  userApplication : UserApplication
  log : List Output

def Firmware.typed (fw : QueuedFirmware) : Controller :=
  ⟨fw.tasks, fw.ipc, fw.encoder, fw.stepperMotor, fw.userApplication, fw.log⟩

def queuedTask : Action → Option Task
  | .schedulerEventPut eventData => some (.stateMachine eventData)
  | _ => none

def driveCall : Action → Option Drive
  | .drive drive => some drive
  | _ => none

def visible : Action → Option Output
  | .drive drive => some (.drive drive)
  | .schedulerEventPut _ => none
  | .ipcSendDataPacket dataPacket =>
    some (.transmitted (ipcSendDataPacket (some (pointer dataPacket))
      (UInt8.ofNat dataPacket.length)).2)

/-- A full queue takes nothing more; otherwise the tasks are only extended. -/
theorem prefix_offerAll (tasks added : List Task) : tasks <+: added.foldl offer tasks := by
  induction added generalizing tasks with
  | nil => exact List.prefix_refl _
  | cons t rest ih =>
    refine List.IsPrefix.trans ?_ (ih (offer tasks t))
    rw [offer]
    split
    · exact List.prefix_append _ _
    · exact List.prefix_refl _

def dispatchedTask : Option (Dispatch Handler) → Option Task
  | some (.call .userApplicationEncoderStepActivity) => some (.ofType .stepActivity)
  | some (.call .userApplicationEncoderHomeActivity) => some (.ofType .homeActivity)
  | _ => none

namespace Controller

def offerAll (c : Controller) (tasks : List Task) : List Task := tasks.foldl offer c.tasks

def receiveByte (c : Controller) (receivedData : UInt8) : Controller :=
  let next := ipcStateMachineEventHandler c.ipc receivedData
  { c with
    ipc := next.1
    tasks := c.offerAll (next.2.map Task.postProcessing).toList }

def pinTransition (c : Controller) (gpio eventMask : Nat) (levelA levelB : Bool) : Controller :=
  let next := encoderDrvStepHomePinTransitionsCallback c.encoder gpio eventMask levelA levelB
  { c with
    encoder := next.1
    tasks := c.offerAll (dispatchedTask next.2).toList }

/-- What is copied out of the packet: the first three bytes of the buffer. -/
def commandTask (c : Controller) : Task :=
  .stateMachine ⟨.processCmdRequest, .ofMemory c.ipc.ipcReceivedDataPacketBuffer⟩

/-- The first task is a packet: it is given to the application, and its command queued. -/
def runPostProcessing (c : Controller) (params : IpcReceivedDataPacketPostProcessingParams) :
    Controller :=
  let status := (ipcReceivedDataPacketPostProcessingHandler c.ipc params).receptionStatus
  { c with
    log := c.log ++ [.received status (c.ipc.received params.receivedDataSize.toNat)]
    tasks := (c.offerAll (match status with
      | .ok => [c.commandTask]
      | .packetCorrupted => [])).tail }

def runStateMachine (c : Controller) (eventData : UserApplicationStateMachineEventData) :
    Controller :=
  let next := userApplicationStateMachineEventHandler c.userApplication
    (encoderDrvGetEncoderPosition c.encoder) eventData
  { c with
    userApplication := next.1
    stepperMotor := (next.2.filterMap driveCall).foldl StepperMotorDrv.drive c.stepperMotor
    log := c.log ++ next.2.filterMap visible
    tasks := (c.offerAll (next.2.filterMap queuedTask)).tail }

def execute (c : Controller) : Controller :=
  match c.tasks with
  | [] => c
  | .postProcessing params :: _ => c.runPostProcessing params
  | .stateMachine eventData :: _ => c.runStateMachine eventData

def step (c : Controller) : Input → Controller
  | .receivedByte receivedData => c.receiveByte receivedData
  | .pinTransition gpio eventMask levelA levelB => c.pinTransition gpio eventMask levelA levelB
  | .execute => c.execute

/-! What an interrupt adds to the tasks: nothing, or one of its own. -/

section Interrupts
variable (c : Controller)

private theorem offerAll_option (t : Option Task) :
    c.offerAll t.toList = c.tasks ∨ ∃ u ∈ t, c.offerAll t.toList = c.tasks ++ [u] := by
  cases t with
  | none => exact .inl rfl
  | some u =>
    rw [Option.toList_some, offerAll, List.foldl_cons, List.foldl_nil, offer]
    split
    · exact .inr ⟨u, rfl, rfl⟩
    · exact .inl rfl

theorem receiveByte_tasks (b : UInt8) :
    (c.receiveByte b).tasks = c.tasks ∨
      ∃ params, (c.receiveByte b).tasks = c.tasks ++ [.postProcessing params] := by
  rcases c.offerAll_option ((ipcStateMachineEventHandler c.ipc b).2.map Task.postProcessing) with
    h | ⟨t, ht, h⟩
  · exact .inl h
  · obtain ⟨params, -, rfl⟩ := Option.map_eq_some_iff.mp ht
    exact .inr ⟨params, h⟩

theorem pinTransition_tasks (gpio eventMask : Nat) (levelA levelB : Bool) :
    (c.pinTransition gpio eventMask levelA levelB).tasks = c.tasks ∨
      ∃ type, (type = .stepActivity ∨ type = .homeActivity) ∧
        (c.pinTransition gpio eventMask levelA levelB).tasks = c.tasks ++ [.ofType type] := by
  rcases c.offerAll_option (dispatchedTask (encoderDrvStepHomePinTransitionsCallback c.encoder gpio
    eventMask levelA levelB).2) with h | ⟨t, ht, h⟩
  · exact .inl h
  · unfold dispatchedTask at ht
    split at ht
    · cases ht
      exact .inr ⟨_, .inl rfl, h⟩
    · cases ht
      exact .inr ⟨_, .inr rfl, h⟩
    · cases ht

end Interrupts

/-! A turn by the first task, none included. -/

section Execute
variable {c : Controller} {rest : List Task}

theorem execute_idle (ht : c.tasks = []) : c.execute = c := by
  rw [execute, ht]

theorem execute_postProcessing {params : IpcReceivedDataPacketPostProcessingParams}
    (ht : c.tasks = .postProcessing params :: rest) :
    c.execute = c.runPostProcessing params := by
  rw [execute, ht]

theorem execute_stateMachine {eventData : UserApplicationStateMachineEventData}
    (ht : c.tasks = .stateMachine eventData :: rest) :
    c.execute = c.runStateMachine eventData := by
  rw [execute, ht]

end Execute

end Controller

section Queue
variable {fw : QueuedFirmware} {tasks : List Task}

private theorem tasks_of_queue (h : fw.queue = tasks.map Task.event) : fw.tasks = tasks := by
  rw [Firmware.tasks, h, List.filterMap_map]
  have hid : Task.ofEvent ∘ Task.event = some := funext Task.ofEvent_event
  rw [hid, List.filterMap_some]

theorem put_queue_event (h : fw.queue = tasks.map Task.event) (t : Task) :
    (fw.put t.event).queue = (offer tasks t).map Task.event := by
  rw [put_queue t.event_length, h, List.length_map, offer]
  split
  · rw [List.map_append, List.map_singleton]
  · rfl

theorem tasks_length_le (h : fw.queue = tasks.map Task.event) :
    tasks.length ≤ schedulerMaxQueueSize := by
  have hle : fw.queue.length ≤ schedulerMaxQueueSize := fw.scheduler.bounded
  rwa [h, List.length_map] at hle

private theorem current_nil (h : fw.queue = [].map Task.event) : fw.executeEvent = fw := by
  have hnone : EventQueue.current fw.scheduler = none := congrArg List.head? h
  rw [Firmware.executeEvent, hnone]

private theorem current_cons {t : Task} (h : fw.queue = (t :: tasks).map Task.event) :
    fw.executeEvent = (fw.invoke t.event).completeEvent := by
  have hsome : EventQueue.current fw.scheduler = some t.event := congrArg List.head? h
  rw [Firmware.executeEvent, hsome]

end Queue

section Perform
variable {fw : QueuedFirmware} {tasks : List Task}

theorem perform_queue (h : fw.queue = tasks.map Task.event) (a : Action) :
    (fw.perform a).queue = ((queuedTask a).toList.foldl offer tasks).map Task.event := by
  cases a with
  | drive drive => exact h
  | schedulerEventPut eventData => exact put_queue_event h (.stateMachine eventData)
  | ipcSendDataPacket dataPacket => exact h

private theorem performAll_eq (h : fw.queue = tasks.map Task.event) (actions : List Action) :
    let next := actions.foldl Firmware.perform fw
    next.queue = ((actions.filterMap queuedTask).foldl offer tasks).map Task.event ∧
    next.stepperMotor = (actions.filterMap driveCall).foldl StepperMotorDrv.drive fw.stepperMotor ∧
    next.log = fw.log ++ actions.filterMap visible ∧
    next.ipc = fw.ipc ∧ next.encoder = fw.encoder ∧ next.userApplication = fw.userApplication := by
  induction actions generalizing fw tasks with
  | nil => exact ⟨h, rfl, (List.append_nil _).symm, rfl, rfl, rfl⟩
  | cons a rest ih =>
    obtain ⟨hqueue, hmotor, hlog, hipc, hencoder, happ⟩ := ih (perform_queue h a)
    refine ⟨?_, ?_, ?_, ?_, ?_, ?_⟩
    · rw [List.foldl_cons, hqueue]
      cases a <;> rfl
    · rw [List.foldl_cons, hmotor]
      cases a <;> rfl
    · rw [List.foldl_cons, hlog]
      cases a <;> simp [List.filterMap_cons, visible, Firmware.perform, Firmware.emit,
        Firmware.putEvent, Firmware.put]
    · rw [List.foldl_cons, hipc]
      cases a <;> rfl
    · rw [List.foldl_cons, hencoder]
      cases a <;> rfl
    · rw [List.foldl_cons, happ]
      cases a <;> rfl

end Perform

section Steps
variable {fw : QueuedFirmware}

/-- A step keeps the registrations, and does to the tasks what the controller's does. -/
structure Follows (fw : QueuedFirmware) (next : Controller) : Prop where
  regular : Regular fw
  typed_eq : fw.typed = next

/-- Only the queue is left to look at once the other components are known. -/
theorem follows_of_queue {fw' : QueuedFirmware} {next : Controller} (h : Regular fw)
    (hqueue : fw'.queue = next.tasks.map Task.event)
    (hothers : fw'.typed = { next with tasks := fw'.tasks })
    (hpacket : next.ipc.ipcDataPacketReceivedEventHandler =
      fw.ipc.ipcDataPacketReceivedEventHandler)
    (hencoder : next.encoder.eventHandlers = fw.encoder.eventHandlers ∧
      next.encoder.eventHandling = fw.encoder.eventHandling) : Follows fw' next := by
  have htasks := tasks_of_queue hqueue
  have heq : fw'.typed = next := by rw [hothers, htasks]
  have hipc : fw'.ipc = next.ipc := congrArg Controller.ipc heq
  have henc : fw'.encoder = next.encoder := congrArg Controller.encoder heq
  refine ⟨⟨by rw [hqueue, htasks], ?_, ?_, ?_⟩, heq⟩
  · rw [hipc, hpacket, h.packetHandler]
  · rw [henc, hencoder.1, h.encoderHandlers]
  · rw [henc, hencoder.2, h.encoderHandling]

theorem receiveByte_follows (h : Regular fw) (b : UInt8) :
    Follows (fw.receiveByte b) (fw.typed.receiveByte b) := by
  refine follows_of_queue h ?_ ?_ (eventHandler_handler fw.ipc b) ⟨rfl, rfl⟩
  · simp only [Firmware.receiveByte, Controller.receiveByte, Controller.offerAll, Firmware.typed]
    cases (ipcStateMachineEventHandler fw.ipc b).2 with
    | none => exact h.queue_eq
    | some params => exact put_queue_event h.queue_eq (.postProcessing params)
  · simp only [Firmware.receiveByte, Controller.receiveByte, Firmware.typed]
    cases (ipcStateMachineEventHandler fw.ipc b).2 <;> rfl

theorem pinTransition_follows (h : Regular fw) (gpio eventMask : Nat) (levelA levelB : Bool) :
    Follows (fw.pinTransition gpio eventMask levelA levelB)
      (fw.typed.pinTransition gpio eventMask levelA levelB) := by
  refine follows_of_queue h ?_ ?_ rfl
    (callback_registration fw.encoder gpio eventMask levelA levelB)
  all_goals
    simp only [Firmware.pinTransition, Controller.pinTransition, Controller.offerAll, Firmware.typed]
    have hcall := callback_immediate fw.encoder h.encoderHandling gpio eventMask levelA levelB
    rw [h.encoderHandlers] at hcall
    rcases hcall with hd | hd | hd <;> rw [hd]
  · exact h.queue_eq
  · exact put_queue_event h.queue_eq (.ofType .stepActivity)
  · exact put_queue_event h.queue_eq (.ofType .homeActivity)
  all_goals rfl

private theorem invoke_postProcessing (h : Regular fw)
    (params : IpcReceivedDataPacketPostProcessingParams) :
    fw.invoke (Task.postProcessing params).event =
      fw.processReceivedDataPacket (ipcReceivedDataPacketPostProcessingHandler fw.ipc params) := by
  change (if params.toBytes = [] then fw else fw.postProcess (.ofBytes params.toBytes)) = _
  have hdata : params.toBytes ≠ [] := List.cons_ne_nil _ _
  rw [if_neg hdata, Firmware.postProcess, h.packetHandler]
  rfl

private theorem invoke_stateMachine (eventData : UserApplicationStateMachineEventData) :
    fw.invoke (Task.stateMachine eventData).event = fw.handleEvent eventData := by
  simp [Firmware.invoke, Task.event]

private theorem runPostProcessing_follows (h : Regular fw)
    (params : IpcReceivedDataPacketPostProcessingParams) :
    Follows (fw.invoke (Task.postProcessing params).event).completeEvent
      (fw.typed.runPostProcessing params) := by
  rw [invoke_postProcessing h, Firmware.processReceivedDataPacket, Controller.runPostProcessing]
  dsimp only [Firmware.typed]
  cases (ipcReceivedDataPacketPostProcessingHandler fw.ipc params).receptionStatus with
  | ok =>
    let handed := fw.emit (.received .ok (fw.ipc.received params.receivedDataSize.toNat))
    have hhanded : handed.queue = fw.tasks.map Task.event := h.queue_eq
    have hput := put_queue_event hhanded fw.typed.commandTask
    exact follows_of_queue h ((congrArg List.tail hput).trans List.map_tail.symm) rfl rfl ⟨rfl, rfl⟩
  | packetCorrupted =>
    exact follows_of_queue h ((congrArg List.tail h.queue_eq).trans List.map_tail.symm) rfl rfl
      ⟨rfl, rfl⟩

private theorem runStateMachine_follows (h : Regular fw)
    (eventData : UserApplicationStateMachineEventData) :
    Follows (fw.invoke (Task.stateMachine eventData).event).completeEvent
      (fw.typed.runStateMachine eventData) := by
  rw [invoke_stateMachine]
  let next := userApplicationStateMachineEventHandler fw.userApplication
    (encoderDrvGetEncoderPosition fw.encoder) eventData
  have hstart : Firmware.queue { fw with userApplication := next.1 } = fw.tasks.map Task.event :=
    h.queue_eq
  obtain ⟨hqueue, hmotor, hlog, hipc, hencoder, happ⟩ := performAll_eq hstart next.2
  refine follows_of_queue h ((congrArg List.tail hqueue).trans List.map_tail.symm) ?_ rfl ⟨rfl, rfl⟩
  simp only [Firmware.typed, Firmware.completeEvent, Firmware.handleEvent,
    Controller.runStateMachine]
  rw [hmotor, hlog, hipc, hencoder, happ]

private theorem execute_follows (h : Regular fw) : Follows fw.executeEvent fw.typed.execute := by
  have hqueue := h.queue_eq
  cases htasks : fw.tasks with
  | nil =>
    rw [htasks] at hqueue
    rw [current_nil hqueue, Controller.execute_idle htasks]
    exact ⟨h, rfl⟩
  | cons t rest =>
    rw [htasks] at hqueue
    rw [current_cons hqueue]
    cases t with
    | postProcessing params =>
      rw [Controller.execute_postProcessing htasks]
      exact runPostProcessing_follows h params
    | stateMachine eventData =>
      rw [Controller.execute_stateMachine htasks]
      exact runStateMachine_follows h eventData

theorem step_follows (h : Regular fw) (i : Input) : Follows (fw.step i) (fw.typed.step i) := by
  cases i with
  | receivedByte b => exact receiveByte_follows h b
  | pinTransition gpio eventMask levelA levelB => exact pinTransition_follows h gpio eventMask _ _
  | execute => exact execute_follows h

/-- The firmware over the bounded queue is the controller over typed tasks. -/
theorem controller_refinement :
    Machine.Refinement Firmware.step Controller.step Firmware.typed Regular where
  keeps _ i h := (step_follows h i).regular
  follows _ i h := (step_follows h i).typed_eq

end Steps

def Controller.start : Controller where
  tasks := [.ofType .internal]
  ipc := (ipcInit .initial (some .userApplicationProcessReceivedDataPacket)).1
  encoder := encoderDrvInit .initial
    ⟨some .userApplicationEncoderStepActivity, some .userApplicationEncoderHomeActivity⟩ .immediate
  stepperMotor := .initial
  userApplication := .initial
  log := []

private theorem startView_regular : Regular startView where
  queue_eq := rfl
  packetHandler := rfl
  encoderHandlers := rfl
  encoderHandling := rfl

/-- The controller that the firmware over the arrays stands for. -/
def Firmware.controller (fw : Firmware (SchedulerParams Handler)) : Controller := fw.view.typed

/-- The two refinements in a row. -/
theorem arrays_refinement :
    Machine.Refinement Firmware.step Controller.step Firmware.controller
      (fun fw => Coherent fw ∧ Regular fw.view) :=
  firmware_refinement.trans controller_refinement

theorem start_related : (Coherent start ∧ Regular start.view) ∧
    start.controller = Controller.start := by
  obtain ⟨hcoherent, hview⟩ := start_keeps
  refine ⟨⟨hcoherent, ?_⟩, ?_⟩
  · rw [hview]
    exact startView_regular
  · rw [Firmware.controller, hview]
    rfl

/-- A run of the firmware is a run of the controller. -/
theorem run_controller (inputs : List Input) :
    (Machine.run Firmware.step start inputs).controller =
      Machine.run Controller.step Controller.start inputs := by
  rw [(arrays_refinement.run_view start_related.1 inputs).2, start_related.2]

/-- In every run the arrays hold exactly the events of the controller's tasks. -/
theorem run_denotes (inputs : List Input) :
    let fw := Machine.run Firmware.step start inputs
    Denotes fw.scheduler (fw.controller.tasks.map Task.event) := by
  intro fw
  obtain ⟨hcoherent, hregular⟩ := (arrays_refinement.run_view start_related.1 inputs).1
  have hqueue : fw.scheduler.fifo.events = fw.controller.tasks.map Task.event := hregular.queue_eq
  rw [← hqueue]
  exact hcoherent

theorem meets_controller {cond : Controller → Input → Prop} (inputs : List Input) :
    Machine.Meets Firmware.step (fun fw i => cond fw.controller i) start inputs ↔
      Machine.Meets Controller.step cond Controller.start inputs := by
  rw [arrays_refinement.meets_view start_related.1 inputs, start_related.2]

theorem always_controller {P : Controller → Prop} (inputs : List Input) :
    Machine.Always Firmware.step (fun fw => P fw.controller) start inputs ↔
      Machine.Always Controller.step P Controller.start inputs := by
  rw [arrays_refinement.always_view start_related.1 inputs, start_related.2]

end ClosedLoopStepper.Device
