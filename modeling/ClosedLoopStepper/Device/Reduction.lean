import ClosedLoopStepper.Device.PreemptedController

/-! Preempted turns reduced to whole ones. A handler that reads the receive buffer can be taken
to run when it puts its command, one that reads the position when it reads it, unless a
callback comes between that is seen in the order of the queue or in what is read. -/
namespace ClosedLoopStepper.Device
open Foundations Common Scheduler Ipc Encoder StepperMotor Application

def Input.callbacks : Input → List Input
  | .execute => []
  | i => [i]

def PreemptedInput.callbacks : PreemptedInput → List Input
  | .receivedByte receivedData => [.receivedByte receivedData]
  | .pinTransition gpio eventMask levelA levelB => [.pinTransition gpio eventMask levelA levelB]
  | .advance => []

namespace Controller

def added (c : Controller) : Input → List Task
  | .receivedByte receivedData =>
    ((ipcStateMachineEventHandler c.ipc receivedData).2.map Task.postProcessing).toList
  | .pinTransition gpio eventMask levelA levelB =>
    (dispatchedTask (encoderDrvStepHomePinTransitionsCallback c.encoder gpio eventMask levelA
      levelB).2).toList
  | .execute => []

/-- The variables that only the callbacks write. -/
def interrupt (c : Controller) : Input → IpcComponent Handler × EncoderDrv Handler
  | .receivedByte receivedData => ((ipcStateMachineEventHandler c.ipc receivedData).1, c.encoder)
  | .pinTransition gpio eventMask levelA levelB =>
    (c.ipc, (encoderDrvStepHomePinTransitionsCallback c.encoder gpio eventMask levelA levelB).1)
  | .execute => (c.ipc, c.encoder)

private theorem step_callback (c : Controller) {i : Input} (hi : i ≠ .execute) :
    c.step i = { c with
      ipc := (c.interrupt i).1
      encoder := (c.interrupt i).2
      tasks := c.offerAll (c.added i) } := by
  cases i with
  | receivedByte b => rfl
  | pinTransition gpio eventMask levelA levelB => rfl
  | execute => exact absurd rfl hi

def stores (c : Controller) : Input → Bool
  | .receivedByte _ => c.ipc.writeOffset.isSome
  | _ => false

private theorem step_received {c : Controller} {i : Input} (hi : i ≠ .execute)
    (h : c.stores i = false)
    (size : Nat) : (c.step i).ipc.received size = c.ipc.received size := by
  cases i with
  | receivedByte b =>
    have hnone : c.ipc.writeOffset = none := Option.isSome_eq_false_iff.mp h |> Option.isNone_iff_eq_none.mp
    have hbuffer := eventHandler_buffer c.ipc b
    rw [hnone] at hbuffer
    exact congrArg (fun buffer => (List.range size).map buffer) hbuffer
  | pinTransition gpio eventMask levelA levelB => rfl
  | execute => exact absurd rfl hi

def finish (c : Controller) (actions : List Action) : Controller :=
  (actions.foldl perform c).complete

private theorem finish_eq (c : Controller) (actions : List Action) :
    c.finish actions = { c with
      tasks := (c.offerAll (actions.filterMap queuedTask)).tail
      stepperMotor := (actions.filterMap driveCall).foldl StepperMotorDrv.drive c.stepperMotor
      log := c.log ++ actions.filterMap visible } := by
  have hall : actions.foldl perform c = { c with
      tasks := c.offerAll (actions.filterMap queuedTask)
      stepperMotor := (actions.filterMap driveCall).foldl StepperMotorDrv.drive c.stepperMotor
      log := c.log ++ actions.filterMap visible } := by
    induction actions generalizing c with
    | nil => simp [offerAll]
    | cons action rest ih =>
      rw [List.foldl_cons, ih]
      cases action <;>
        simp [perform, offerAll, queuedTask, driveCall, visible, List.filterMap_cons]
  rw [finish, hall]
  rfl

private theorem tail_offerAll {tasks added queued : List Task} (hne : tasks ≠ [])
    (h : added = [] ∨ queued = [] ∧ added.length ≤ 1 ∧ tasks.length < schedulerMaxQueueSize) :
    (queued.foldl offer (added.foldl offer tasks)).tail =
      added.foldl offer (queued.foldl offer tasks).tail := by
  rcases h with rfl | ⟨rfl, hone, hroom⟩
  · rfl
  · cases tasks with
    | nil => exact absurd rfl hne
    | cons t rest =>
      cases added with
      | nil => rfl
      | cons u more =>
        have hnil : more = [] := List.eq_nil_of_length_eq_zero (by
          rw [List.length_cons] at hone
          omega)
        subst hnil
        have hrest : rest.length < schedulerMaxQueueSize := Nat.lt_of_succ_lt hroom
        simp only [List.foldl_cons, List.foldl_nil, offer, if_pos hroom, List.tail_cons,
          if_pos hrest, List.cons_append]

private theorem added_length (c : Controller) (i : Input) : (c.added i).length ≤ 1 := by
  cases i with
  | receivedByte b => exact Option.length_toList_le
  | pinTransition gpio eventMask levelA levelB => exact Option.length_toList_le
  | execute => exact Nat.zero_le 1

private theorem finish_step {c : Controller} {i : Input} {actions : List Action} (hi : i ≠ .execute)
    (hne : c.tasks ≠ []) (h : c.added i = [] ∨
      actions.filterMap queuedTask = [] ∧ c.tasks.length < schedulerMaxQueueSize) :
    (c.step i).finish actions = (c.finish actions).step i := by
  have htasks := tail_offerAll hne (h.imp id fun h => ⟨h.1, c.added_length i, h.2⟩)
  have hadded : (c.finish actions).added i = c.added i := by
    rw [finish_eq]
    cases i <;> rfl
  have hinterrupt : (c.finish actions).interrupt i = c.interrupt i := by
    rw [finish_eq]
    cases i <;> rfl
  rw [step_callback _ hi, step_callback _ hi, hadded, hinterrupt, finish_eq, finish_eq]
  simp only [offerAll, htasks]

end Controller

namespace PreemptedController

/-- The controller of whole turns: the running one has not begun, or is over. A packet that
is being copied has been put out already. -/
def reduced (s : PreemptedController) : Controller :=
  match s.point with
  | .loop | .verify .. | .handle _ => s.controller
  | .copy _ => { s.controller with log := s.controller.log.dropLast }
  | .perform actions => s.controller.finish actions
  | .complete => s.controller.finish []

/-- The callback changes nothing that the running handler has still to read, and puts nothing
in front of what it has still to put, nor where the running event takes the last place. -/
def Undisturbed (s : PreemptedController) (i : Input) : Prop :=
  match s.point with
  | .loop | .handle _ => True
  | .verify .. | .copy _ => s.controller.stores i = false
  | .perform actions =>
    s.controller.added i = [] ∨
      actions.filterMap queuedTask = [] ∧ s.controller.tasks.length < schedulerMaxQueueSize
  | .complete =>
    s.controller.added i = [] ∨ s.controller.tasks.length < schedulerMaxQueueSize

instance (s : PreemptedController) (i : Input) : Decidable (s.Undisturbed i) :=
  match s with
  | ⟨_, .loop⟩ | ⟨_, .handle _⟩ => inferInstanceAs (Decidable True)
  | ⟨c, .verify ..⟩ | ⟨c, .copy _⟩ => inferInstanceAs (Decidable (c.stores i = false))
  | ⟨c, .perform actions⟩ => inferInstanceAs (Decidable
      (c.added i = [] ∨ actions.filterMap queuedTask = [] ∧ c.tasks.length < schedulerMaxQueueSize))
  | ⟨c, .complete⟩ => inferInstanceAs (Decidable
      (c.added i = [] ∨ c.tasks.length < schedulerMaxQueueSize))

/-- How far the running handler has read what it reads. -/
inductive Reading (c : Controller) : TurnPoint → Prop
  | loop : Reading c .loop
  | verify {params : IpcReceivedDataPacketPostProcessingParams} {rest : List Task} {offset : Nat}
      (ht : c.tasks = .postProcessing params :: rest)
      (hle : offset ≤ params.receivedDataSize.toNat) :
      Reading c (.verify params offset (dataPacketCrc (c.ipc.received offset)))
  | copy {before : Controller} {params : IpcReceivedDataPacketPostProcessingParams}
      {rest : List Task} {size : Nat} (ht : before.tasks = .postProcessing params :: rest)
      (hcrc : dataPacketCrc (before.ipc.received params.receivedDataSize.toNat) =
        params.expectedDataCrc)
      (heq : c = before.receive .ok params.receivedDataSize.toNat) (hle : size ≤ commandFrameSize) :
      Reading c (.copy (before.ipc.received size))
  | handle {eventData : UserApplicationStateMachineEventData} {rest : List Task}
      (ht : c.tasks = .stateMachine eventData :: rest) : Reading c (.handle eventData)
  | perform (actions : List Action) (hne : c.tasks ≠ []) : Reading c (.perform actions)
  | complete (hne : c.tasks ≠ []) : Reading c .complete

variable {c : Controller}

private theorem prefix_step (c : Controller) {i : Input} (hi : i ≠ .execute) :
    c.tasks <+: (c.step i).tasks := by
  rw [Controller.step_callback c hi]
  exact prefix_offerAll c.tasks (c.added i)

private theorem tasks_step {t : Task} {rest : List Task} {i : Input} (hi : i ≠ .execute)
    (ht : c.tasks = t :: rest) : ∃ more, (c.step i).tasks = t :: more := by
  obtain ⟨added, hadded⟩ := prefix_step c hi
  rw [ht, List.cons_append] at hadded
  exact ⟨_, hadded.symm⟩

/-- A callback that does not disturb the turn comes before it, or after it. -/
theorem callback_reduced {point : TurnPoint} {i : Input} (hi : i ≠ .execute)
    (h : Reading c point) (hi' : Undisturbed ⟨c, point⟩ i) :
    Reading (c.step i) point ∧ reduced ⟨c.step i, point⟩ = (reduced ⟨c, point⟩).step i := by
  cases h with
  | loop => exact ⟨.loop, rfl⟩
  | @verify params rest offset ht hle =>
    obtain ⟨more, hmore⟩ := tasks_step hi ht
    have hverify := Reading.verify hmore hle
    rw [Controller.step_received hi hi'] at hverify
    exact ⟨hverify, rfl⟩
  | @copy before params rest size ht hcrc heq hle =>
    subst heq
    have hstores : before.stores i = false := by
      cases i <;> exact hi'
    have hreceived := Controller.step_received hi hstores
    obtain ⟨more, hmore⟩ := tasks_step hi ht
    have hnext : (before.receive .ok params.receivedDataSize.toNat).step i =
        (before.step i).receive .ok params.receivedDataSize.toNat := by
      rw [Controller.receive, Controller.receive, hreceived]
      cases i with
      | receivedByte b => rfl
      | pinTransition gpio eventMask levelA levelB => rfl
      | execute => exact absurd rfl hi
    have hcopy : Reading _ (.copy ((before.step i).ipc.received size)) :=
      .copy hmore (by rwa [hreceived]) hnext hle
    rw [hreceived] at hcopy
    refine ⟨hcopy, ?_⟩
    have hdrop (c : Controller) : reduced ⟨c.receive .ok params.receivedDataSize.toNat,
        .copy (before.ipc.received size)⟩ = c := by
      simp [reduced, Controller.receive]
    rw [hnext, hdrop, hdrop]
  | handle ht =>
    obtain ⟨more, hmore⟩ := tasks_step hi ht
    exact ⟨.handle hmore, rfl⟩
  | perform actions hne =>
    refine ⟨.perform actions ?_, Controller.finish_step hi hne hi'⟩
    exact fun hnil => hne (List.prefix_nil.mp (hnil ▸ prefix_step c hi))
  | complete hne =>
    refine ⟨.complete ?_, Controller.finish_step hi hne (hi'.imp id fun h => ⟨rfl, h⟩)⟩
    exact fun hnil => hne (List.prefix_nil.mp (hnil ▸ prefix_step c hi))

/-- A step of the running turn, in the controller of whole turns: none, or all of the turn. -/
def Reduced (c : Controller) (point : TurnPoint) (s : PreemptedController) : Prop :=
  Reading s.controller s.point ∧
    (reduced s = reduced ⟨c, point⟩ ∨ reduced s = (reduced ⟨c, point⟩).execute)

private theorem advance_loop_reduced : Reduced c .loop (advance c .loop) := by
  rw [advance]
  split
  · exact ⟨.loop, .inl rfl⟩
  · exact ⟨.verify ‹_› (Nat.zero_le _), .inl rfl⟩
  · exact ⟨.handle ‹_›, .inl rfl⟩

private theorem advance_verify_reduced {params : IpcReceivedDataPacketPostProcessingParams}
    {rest : List Task} {offset : Nat} (ht : c.tasks = .postProcessing params :: rest)
    (hle : offset ≤ params.receivedDataSize.toNat) :
    let point := TurnPoint.verify params offset (dataPacketCrc (c.ipc.received offset))
    Reduced c point (advance c point) := by
  intro point
  rw [advance]
  split
  · rename_i hlt
    rw [crc_received_succ]
    exact ⟨.verify ht hlt, .inl rfl⟩
  · have hend : offset = params.receivedDataSize.toNat := by omega
    subst hend
    split
    · rename_i hcrc
      exact ⟨.copy ht hcrc rfl (Nat.zero_le _), .inl (by simp [point, reduced, Controller.receive])⟩
    · rename_i hcrc
      have hne : c.tasks ≠ [] := by
        rw [ht]
        exact List.cons_ne_nil _ _
      refine ⟨.complete hne, .inr ?_⟩
      change (c.receive .packetCorrupted _).finish [] = c.execute
      rw [Controller.execute_postProcessing ht, Controller.runPostProcessing]
      simp only [ipcReceivedDataPacketPostProcessingHandler, if_neg hcrc, Controller.finish_eq]
      simp [Controller.receive, Controller.offerAll]

private theorem advance_copy_reduced {before : Controller}
    {params : IpcReceivedDataPacketPostProcessingParams}
    {rest : List Task} {size : Nat} (ht : before.tasks = .postProcessing params :: rest)
    (hcrc : dataPacketCrc (before.ipc.received params.receivedDataSize.toNat) =
      params.expectedDataCrc) (hle : size ≤ commandFrameSize) :
    let c := before.receive .ok params.receivedDataSize.toNat
    let point := TurnPoint.copy (before.ipc.received size)
    Reduced c point (advance c point) := by
  intro c point
  have hlength : (before.ipc.received size).length = size := by simp [IpcComponent.received]
  have hreduced (size : Nat) : reduced ⟨c, .copy (before.ipc.received size)⟩ = before := by
    simp [c, reduced, Controller.receive]
  rw [advance, hlength]
  split
  · rename_i hlt
    have hsucc : before.ipc.received size ++ [c.ipc.ipcReceivedDataPacketBuffer size] =
        before.ipc.received (size + 1) := (received_succ before.ipc size).symm
    rw [hsucc]
    exact ⟨.copy ht hcrc rfl hlt, .inl ((hreduced _).trans (hreduced _).symm)⟩
  · have hend : size = commandFrameSize := by omega
    subst hend
    refine ⟨.complete ?_, .inr ?_⟩
    · intro hnil
      have hprefix := prefix_offerAll before.tasks [before.commandTask]
      have hnone : [before.commandTask].foldl offer before.tasks = [] := hnil
      rw [hnone, ht] at hprefix
      exact List.cons_ne_nil _ _ (List.prefix_nil.mp hprefix)
    · rw [hreduced, Controller.execute_postProcessing ht, Controller.runPostProcessing]
      simp only [ipcReceivedDataPacketPostProcessingHandler, if_pos hcrc]
      rfl

private theorem advance_reduced {point : TurnPoint} (h : Reading c point) :
    Reduced c point (advance c point) := by
  cases h with
  | loop => exact advance_loop_reduced
  | verify ht hle => exact advance_verify_reduced ht hle
  | copy ht hcrc heq hle =>
    subst heq
    exact advance_copy_reduced ht hcrc hle
  | handle ht =>
    have hne : c.tasks ≠ [] := by
      rw [ht]
      exact List.cons_ne_nil _ _
    refine ⟨.perform _ hne, .inr ?_⟩
    rw [reduced, reduced, Controller.execute_stateMachine ht]
    exact Controller.finish_eq _ _
  | perform actions hne =>
    cases actions with
    | nil => exact ⟨.complete hne, .inl rfl⟩
    | cons action actions =>
      refine ⟨.perform actions fun hnil => hne ?_, .inl rfl⟩
      have hprefix := prefix_offerAll c.tasks (queuedTask action).toList
      have hnone : (queuedTask action).toList.foldl offer c.tasks = [] := hnil
      rw [hnone] at hprefix
      exact List.prefix_nil.mp hprefix
  | complete => exact ⟨.loop, .inl rfl⟩

/-- The steps of a turn reduce to the whole turn. -/
theorem preempted_reduction :
    Machine.Reduction step Controller.step (fun s i => ∀ j ∈ i.callbacks, s.Undisturbed j) reduced
      (fun s => Reading s.controller s.point) PreemptedInput.callbacks Input.callbacks where
  keeps s i h hi := by
    cases i with
    | receivedByte b =>
      exact (callback_reduced (i := .receivedByte b) nofun h (hi _ List.mem_cons_self)).1
    | pinTransition gpio eventMask levelA levelB =>
      exact (callback_reduced (i := .pinTransition gpio eventMask levelA levelB) nofun h
        (hi _ List.mem_cons_self)).1
    | advance => exact (advance_reduced h).1
  follows s i h hi := by
    cases i with
    | receivedByte b =>
      exact ⟨[.receivedByte b], (callback_reduced (i := .receivedByte b) nofun h
        (hi _ List.mem_cons_self)).2, rfl⟩
    | pinTransition gpio eventMask levelA levelB =>
      exact ⟨[.pinTransition gpio eventMask levelA levelB],
        (callback_reduced (i := .pinTransition gpio eventMask levelA levelB) nofun h
          (hi _ List.mem_cons_self)).2, rfl⟩
    | advance =>
      rcases (advance_reduced h).2 with hsame | hexecute
      · exact ⟨[], hsame, rfl⟩
      · exact ⟨[.execute], hexecute, rfl⟩

end PreemptedController

def PreemptedFirmware.Undisturbed (s : PreemptedFirmware (SchedulerParams Handler))
    (i : PreemptedInput) : Prop :=
  ∀ j ∈ i.callbacks, s.view.typed.Undisturbed j

instance (s : PreemptedFirmware (SchedulerParams Handler)) (i : PreemptedInput) :
    Decidable (s.Undisturbed i) :=
  inferInstanceAs (Decidable (∀ j ∈ i.callbacks, s.view.typed.Undisturbed j))

/-- A run in which no callback disturbs the turn that it preempts is a run of whole turns: with
the same callbacks in the same order, and in the same state whenever a turn is over. -/
theorem preempted_runs_reduce (inputs : List PreemptedInput)
    (h : Machine.Meets PreemptedFirmware.step PreemptedFirmware.Undisturbed preemptedStart inputs) :
    let s := Machine.run PreemptedFirmware.step preemptedStart inputs
    ∃ whole : List Input, whole.flatMap Input.callbacks = inputs.flatMap PreemptedInput.callbacks ∧
      (Machine.run Firmware.step start whole).controller = s.view.typed.reduced ∧
      (s.point = .loop →
        (Machine.run Firmware.step start whole).controller = s.firmware.controller) := by
  intro s
  have hmeets : Machine.Meets PreemptedController.step
      (fun s i => ∀ j ∈ i.callbacks, s.Undisturbed j) preemptedStart.view.typed inputs :=
    (preempted_refinement.meets_view preemptedStart_related.1 inputs).mp h
  rw [preemptedStart_related.2] at hmeets
  obtain ⟨_, whole, hwhole, hlabels⟩ :=
    PreemptedController.preempted_reduction.run_reduced .loop hmeets
  have hreduced : (Machine.run Firmware.step start whole).controller = s.view.typed.reduced := by
    rw [run_controller, run_preempted]
    exact hwhole.symm
  refine ⟨whole, hlabels, hreduced, fun hloop => hreduced.trans ?_⟩
  have hpoint : s.view.typed.point = .loop := hloop
  rw [PreemptedController.reduced, hpoint]
  rfl

def preemptedHoming : List PreemptedInput :=
  [.advance, .pinTransition encoderDrvPinZHome gpioIrqEdgeRise false false] ++
    List.replicate 6 .advance ++ [.receivedByte headerParamLsb] ++ List.replicate 3 .advance

theorem preempted_runs_reduce_homing :
    let s := Machine.run PreemptedFirmware.step preemptedStart preemptedHoming
    ∃ whole : List Input,
      whole.flatMap Input.callbacks = preemptedHoming.flatMap PreemptedInput.callbacks ∧
      (Machine.run Firmware.step start whole).controller = s.view.typed.reduced ∧
      (s.point = .loop →
        (Machine.run Firmware.step start whole).controller = s.firmware.controller) :=
  preempted_runs_reduce preemptedHoming (by decide)

/-- A byte of the next packet that is stored while a command is copied gets into the command. -/
example : (Machine.run PreemptedController.step .start
    (List.replicate 5 .advance ++
      .pinTransition encoderDrvPinZHome gpioIrqEdgeRise false false :: List.replicate 5 .advance ++
      (ipcFormat.frame [0, 20, 0] ++ [headerParamLsb, headerParamMsb, 3, 0]).map .receivedByte ++
      List.replicate 6 .advance ++ .receivedByte 100 :: List.replicate 4 .advance)).controller.tasks =
    [.stateMachine ⟨.processCmdRequest, ⟨0, 100, 0⟩⟩] := by decide

end ClosedLoopStepper.Device
