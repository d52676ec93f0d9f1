import ClosedLoopStepper.Device.Drain

/-! The execution loop comes to an end whatever the variables are, the data of the queued
events included. Only the two handlers that are ever queued are needed for it: what they
queue in turn is typed, and weighs less than the event that they were called for. -/
namespace ClosedLoopStepper.Device
open Foundations Scheduler Ipc Encoder StepperMotor Application

def Drainable (e : SchedulerEvent Handler) : Prop :=
  e.handler = .ipcReceivedDataPacketPostProcessing ∨ e.handler = .userApplicationStateMachine

instance (e : SchedulerEvent Handler) : Decidable (Drainable e) :=
  inferInstanceAs (Decidable (_ ∨ _))

/-- The weight of the task that an event stands for; data that no handler reads cause
nothing further. -/
def eventWeight (e : SchedulerEvent Handler) : Nat :=
  match Task.ofEvent e with
  | some t => t.weight
  | none => 1

def queueWeight : List (SchedulerEvent Handler) → Nat
  | [] => 0
  | e :: rest => eventWeight e + queueWeight rest

private theorem Task.drainable (t : Task) : Drainable t.event := by
  cases t with
  | postProcessing params => exact Or.inl rfl
  | stateMachine eventData => exact Or.inr rfl

private theorem eventWeight_event (t : Task) : eventWeight t.event = t.weight := by
  rw [eventWeight, Task.ofEvent_event]

private theorem eventWeight_pos (e : SchedulerEvent Handler) : 0 < eventWeight e := by
  rw [eventWeight]
  split
  · exact Task.weight_pos _
  · exact Nat.one_pos

private theorem queueWeight_le (events : List (SchedulerEvent Handler)) :
    queueWeight events ≤ 3 * events.length := by
  induction events with
  | nil => exact Nat.le_refl 0
  | cons e rest ih =>
    have he : eventWeight e ≤ 3 := by
      rw [eventWeight]
      split
      · exact Task.weight_le _
      · omega
    rw [queueWeight, List.length_cons]
    omega

private theorem queueWeight_append (events : List (SchedulerEvent Handler)) (added : List Task) :
    queueWeight (events ++ added.map Task.event) = queueWeight events + weight added := by
  induction events with
  | nil =>
    induction added with
    | nil => rfl
    | cons t rest ih =>
      simp only [List.nil_append, List.map_cons, queueWeight, weight] at ih ⊢
      rw [ih, eventWeight_event]
      omega
  | cons e rest ih =>
    rw [List.cons_append, queueWeight, ih, queueWeight, Nat.add_assoc]

/-- Behind what was queued come these tasks, but for those that a full queue refused. -/
def Adds (queue next : List (SchedulerEvent Handler)) (tasks : List Task) : Prop :=
  ∃ added : List Task, next = queue ++ added.map Task.event ∧ added.Sublist tasks

theorem Adds.none {queue next : List (SchedulerEvent Handler)} (h : next = queue)
    (tasks : List Task) : Adds queue next tasks :=
  ⟨[], by rw [h, List.map_nil, List.append_nil], List.nil_sublist tasks⟩

section Puts
variable (fw : QueuedFirmware)

private theorem put_adds (t : Task) : Adds fw.queue (fw.put t.event).queue [t] := by
  have hput : (fw.put t.event).queue = if fw.queue.length < schedulerMaxQueueSize then
      fw.queue ++ [t.event] else fw.queue := put_queue t.event_length
  split at hput
  · exact ⟨[t], hput, List.Sublist.refl _⟩
  · exact Adds.none hput [t]

private theorem perform_adds (a : Action) :
    Adds fw.queue (fw.perform a).queue (queuedTask a).toList := by
  cases a with
  | drive drive => exact Adds.none rfl []
  | schedulerEventPut eventData => exact put_adds fw (.stateMachine eventData)
  | ipcSendDataPacket dataPacket => exact Adds.none rfl []

private theorem performAll_adds (actions : List Action) :
    Adds fw.queue (actions.foldl Firmware.perform fw).queue (actions.filterMap queuedTask) := by
  induction actions generalizing fw with
  | nil => exact Adds.none rfl []
  | cons a rest ih =>
    obtain ⟨first, hfirst, hone⟩ := perform_adds fw a
    obtain ⟨others, hothers, hrest⟩ := ih (fw.perform a)
    refine ⟨first ++ others, ?_, ?_⟩
    · rw [List.foldl_cons, hothers, hfirst, List.map_append, List.append_assoc]
    · have hcons : (a :: rest).filterMap queuedTask =
          (queuedTask a).toList ++ rest.filterMap queuedTask := by
        rw [List.filterMap_cons]
        cases queuedTask a <;> rfl
      rw [hcons]
      exact hone.append hrest

private theorem handler_weight (app : UserApplication) (currentEncoderPosition : Nat)
    (eventData : UserApplicationStateMachineEventData) :
    weight ((userApplicationStateMachineEventHandler app currentEncoderPosition
      eventData).2.filterMap queuedTask) < (Task.stateMachine eventData).weight := by
  have hpos := (Task.stateMachine eventData).weight_pos
  have hfinish : (finishExecution app currentEncoderPosition).2.filterMap queuedTask = [] := by
    unfold finishExecution
    dsimp only
    split_ifs <;> rfl
  unfold userApplicationStateMachineEventHandler
  cases app.userApplicationStateMachineState with
  | calibration => cases htype : eventData.type <;> exact hpos
  | ready =>
    cases htype : eventData.type with
    | processCmdRequest =>
      rw [Task.weight, if_pos htype]
      dsimp only
      split_ifs
      · rcases setStepperMotorAngle_actions eventData.processCmdRequestEventData
          currentEncoderPosition with ⟨_, hactions⟩ | ⟨_, _, hactions⟩ | ⟨_, _, hactions⟩
        all_goals
          rw [hactions]
          decide
      · exact Nat.zero_lt_succ 1
    | internal => exact hpos
    | stepActivity => exact hpos
    | homeActivity => exact hpos
  | execution =>
    cases htype : eventData.type with
    | internal =>
      dsimp only
      rw [hfinish]
      exact hpos
    | stepActivity =>
      dsimp only
      rw [hfinish]
      exact hpos
    | processCmdRequest => exact hpos
    | homeActivity => exact hpos

/-- A handler that is called queues tasks that weigh less than its event. -/
theorem invoke_adds {e : SchedulerEvent Handler} (h : Drainable e) :
    ∃ tasks, Adds fw.queue (fw.invoke e).queue tasks ∧ weight tasks < eventWeight e := by
  rcases h with hpacket | hevent
  · have hweight : eventWeight e = 3 := by
      rw [eventWeight, Task.ofEvent, hpacket]
      rfl
    refine ⟨[.stateMachine ⟨.processCmdRequest, .ofMemory fw.ipc.ipcReceivedDataPacketBuffer⟩],
      ?_, hweight ▸ Nat.lt_succ_self 2⟩
    simp only [Firmware.invoke, hpacket]
    split
    · exact Adds.none rfl _
    · unfold Firmware.postProcess
      split
      · unfold Firmware.processReceivedDataPacket
        dsimp only
        split
        · exact put_adds (fw.emit _) (.stateMachine _)
        · exact Adds.none rfl _
      · exact Adds.none rfl _
  · simp only [Firmware.invoke, hevent]
    cases hdata : UserApplicationStateMachineEventData.ofBytes e.data with
    | none => exact ⟨[], Adds.none rfl [], eventWeight_pos e⟩
    | some eventData =>
      have hweight : eventWeight e = (Task.stateMachine eventData).weight := by
        rw [eventWeight, Task.ofEvent, hevent, hdata]
        rfl
      rw [hweight]
      exact ⟨_, performAll_adds _ _, handler_weight fw.userApplication _ eventData⟩

end Puts

section Loop
variable {fw : QueuedFirmware}

/-- A turn uses up some of the weight, and leaves only such events. -/
theorem executeEvent_weight {e : SchedulerEvent Handler} {rest : List (SchedulerEvent Handler)}
    (hqueue : fw.queue = e :: rest) (h : ∀ e ∈ fw.queue, Drainable e) :
    (∀ e ∈ fw.executeEvent.queue, Drainable e) ∧
      queueWeight fw.executeEvent.queue < queueWeight fw.queue := by
  rw [hqueue, List.forall_mem_cons] at h
  obtain ⟨tasks, ⟨added, hadded, hsublist⟩, hless⟩ := invoke_adds fw h.1
  have hcurrent : EventQueue.current fw.scheduler = some e := congrArg List.head? hqueue
  have hnext : fw.executeEvent.queue = rest ++ added.map Task.event := by
    rw [Firmware.executeEvent, hcurrent]
    change (fw.invoke e).queue.tail = _
    rw [hadded, hqueue]
    rfl
  constructor
  · rw [hnext]
    intro e' hin
    rcases List.mem_append.mp hin with hrest | hin
    · exact h.2 e' hrest
    · obtain ⟨t, _, rfl⟩ := List.mem_map.mp hin
      exact t.drainable
  · have hadded_le := weight_sublist hsublist
    rw [hnext, queueWeight_append, hqueue, queueWeight]
    omega

private theorem schedulerExecute_idle (hqueue : fw.queue = []) (fuel : Nat) :
    fw.schedulerExecute fuel = some fw := by
  have hcurrent : EventQueue.current fw.scheduler = none := congrArg List.head? hqueue
  exact Machine.loop_stops Firmware.schedulerExecute
    (fun fw => (EventQueue.current fw.scheduler).isSome) id (fun _ => rfl) (fun _ _ => rfl)
    (congrArg Option.isSome hcurrent) fuel

/-- As many turns as the weight of the queue empty it. -/
theorem schedulerExecute_terminates (h : ∀ e ∈ fw.queue, Drainable e) {fuel : Nat}
    (hfuel : queueWeight fw.queue ≤ fuel) :
    ∃ last, fw.schedulerExecute fuel = some last ∧ last.queue = [] := by
  induction fuel generalizing fw with
  | zero =>
    cases hqueue : fw.queue with
    | nil => exact ⟨fw, schedulerExecute_idle hqueue 0, hqueue⟩
    | cons e rest =>
      have hpos := eventWeight_pos e
      rw [hqueue, queueWeight] at hfuel
      omega
  | succ fuel ih =>
    cases hqueue : fw.queue with
    | nil => exact ⟨fw, schedulerExecute_idle hqueue (fuel + 1), hqueue⟩
    | cons e rest =>
      obtain ⟨hnext, hless⟩ := executeEvent_weight hqueue h
      have hcurrent : EventQueue.current fw.scheduler = some e := congrArg List.head? hqueue
      rw [Firmware.schedulerExecute, hcurrent]
      exact ih hnext (by omega)

end Loop

/-- Over the arrays: with no interrupt meanwhile the loop calls at most three handlers for
each event that is pending, whatever the other variables are, and leaves the queue empty. -/
theorem schedulerExecute_returns (fw : Firmware (SchedulerParams Handler))
    (events : List (SchedulerEvent Handler)) (hdenotes : Denotes fw.scheduler events)
    (hhandlers : ∀ e ∈ events, e.handler = .ipcReceivedDataPacketPostProcessing ∨
      e.handler = .userApplicationStateMachine) :
    ∃ last, fw.schedulerExecute (3 * events.length) = some last ∧ Denotes last.scheduler [] := by
  let queued : QueuedFirmware := fw.over ⟨events, hdenotes.length_le⟩
  have hqueued : ∀ e ∈ queued.queue, Drainable e := hhandlers
  obtain ⟨last', hlast', hempty⟩ := schedulerExecute_terminates hqueued (queueWeight_le events)
  obtain ⟨last, hlast, fifo, hfifo, rfl⟩ :=
    schedulerExecute_alongside arrays_simulation ⟨_, hdenotes, rfl⟩ hlast'
  refine ⟨last, hlast, ?_⟩
  have hnil : fifo.events = [] := hempty
  rw [hnil] at hfifo
  exact hfifo

/-- A packet behind the first internal event: at most six calls. -/
theorem schedulerExecute_returns_packet :
    let packet : Task := .postProcessing ⟨3, 0⟩
    ∃ last, (start.put packet.event).schedulerExecute (3 * 2) = some last ∧
      Denotes last.scheduler [] :=
  schedulerExecute_returns (start.put (Task.postProcessing ⟨3, 0⟩).event)
    [(Task.ofType .internal).event, (Task.postProcessing ⟨3, 0⟩).event]
    (by
      have hempty : Denotes initialScheduler BoundedFifo.empty.events := Denotes.init _
      have hstart := (put_refines hempty (Task.ofType .internal).event).1
      exact (put_refines hstart (Task.postProcessing ⟨3, 0⟩).event).1)
    (by decide)

end ClosedLoopStepper.Device
