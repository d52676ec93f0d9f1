import ClosedLoopStepper.Device.Drain

/-! Two runs side by side that differ only in the stale bytes of the receive buffer. They
stay in step until the ready state takes a command that was copied out of a packet shorter
than a command, and asks for different positions. -/
namespace ClosedLoopStepper.Device
open Foundations Foundations.Framing Common Scheduler Ipc Encoder StepperMotor Application

def SameTo (ipc ipc' : IpcComponent Handler) (size : Nat) : Prop :=
  ∀ k < size, ipc.ipcReceivedDataPacketBuffer k = ipc'.ipcReceivedDataPacketBuffer k

/-- A pending packet is not empty, and its bytes are the same in both buffers. -/
def SamePacket (ipc ipc' : IpcComponent Handler) : Task → Prop
  | .postProcessing params =>
    0 < params.receivedDataSize.toNat ∧ SameTo ipc ipc' params.receivedDataSize.toNat
  | .stateMachine _ => True

private theorem SameTo.received_eq {ipc ipc' : IpcComponent Handler} {size : Nat}
    (h : SameTo ipc ipc' size) : ipc.received size = ipc'.received size :=
  List.map_congr_left fun k hk => h k (List.mem_range.mp hk)

theorem sameTo_of_received {ipc ipc' : IpcComponent Handler} {payload : List UInt8}
    (h : ipc.received payload.length = payload) (h' : ipc'.received payload.length = payload) :
    SameTo ipc ipc' payload.length := fun k hk =>
  List.map_inj_left.mp (h.trans h'.symm) k (List.mem_range.mpr hk)

private theorem represents_congr {ipc ipc' : IpcComponent Handler} {r : Receiver}
    (h : Represents ipc r) (h' : Represents ipc' r) : ipc.writeOffset = ipc'.writeOffset := by
  unfold IpcComponent.writeOffset
  cases r with
  | hunting half => rw [h.1, h'.1, h.2, h'.2]
  | length => rw [h.1, h'.1, h.2, h'.2]
  | data expected payload => rw [h.1, h'.1, h.2.1, h'.2.1]
  | check payload => rw [h.1, h'.1, h.2.1, h'.2.1]

/-- The same byte is stored at the same place. -/
theorem SameTo.step {ipc ipc' : IpcComponent Handler} {size : Nat} {r : Receiver}
    (h : SameTo ipc ipc' size) (hr : Represents ipc r) (hr' : Represents ipc' r) (b : UInt8) :
    SameTo (ipcStateMachineEventHandler ipc b).1 (ipcStateMachineEventHandler ipc' b).1 size := by
  intro k hk
  rw [eventHandler_buffer, eventHandler_buffer, represents_congr hr hr']
  cases ipc'.writeOffset with
  | none => exact h k hk
  | some offset =>
    dsimp only
    by_cases ho : k = offset
    · rw [ho, Function.update_self, Function.update_self]
    · rw [Function.update_of_ne ho, Function.update_of_ne ho]
      exact h k hk

namespace Controller

def command (c : Controller) : UserApplicationMessagesCmdSetStepperMotorAngle :=
  .ofMemory c.ipc.ipcReceivedDataPacketBuffer

/-- The position asked for by the command whose turn is next, if the ready state takes it. -/
def requested (c : Controller) : Option Nat :=
  match c.tasks with
  | .stateMachine eventData :: _ =>
    if Accepts c.userApplication eventData then
      some (requestedPosition eventData.processCmdRequestEventData)
    else none
  | _ => none

/-- The two events that turns put: a command out of the buffer, or an internal event. -/
def lateEvent (c : Controller) : Bool → UserApplicationStateMachineEventData
  | true => ⟨.processCmdRequest, c.command⟩
  | false => .ofType .internal

def late (c : Controller) (b : Bool) : Task := .stateMachine (c.lateEvent b)

/-- The application has done the same in two runs since these points of their logs. -/
structure Twins (log log' : List Output) (c c' : Controller) : Prop where
  saved : c.Saved
  userApplication_eq : c.userApplication = c'.userApplication
  position_eq : c.position = c'.position
  outputs_eq : ∃ outputs, c.log = log ++ outputs ∧ c'.log = log' ++ outputs

/-- While bytes are fed: the parsers and the queues agree as well. -/
structure FedTwins (log log' : List Output) (r : Receiver) (c c' : Controller) : Prop
    extends Twins log log' c c' where
  represents : Represents c.ipc r
  represents' : Represents c'.ipc r
  tasks_eq : c.tasks = c'.tasks
  packets : ∀ t ∈ c.tasks, SamePacket c.ipc c'.ipc t

/-- While the queue is drained: the same tasks in front, and behind them those that the
turns have put. A command is only put for a packet, which has a first byte. -/
structure DrainTwins (log log' : List Output) (c c' : Controller) : Prop
    extends Twins log log' c c' where
  split : ∃ (front : List Task) (back : List Bool), c.tasks = front ++ back.map c.late ∧
    c'.tasks = front ++ back.map c'.late ∧ (∀ t ∈ front, SamePacket c.ipc c'.ipc t) ∧
    (true ∈ back → SameTo c.ipc c'.ipc 1)

structure Leftover (position : Nat) (c : Controller) : Prop where
  saved : c.Saved
  tasks_late : ∃ back : List Bool, c.tasks = back.map c.late
  command_eq : requestedPosition c.command = position
  requested_eq : c.params.positionRequested = position

variable {log log' : List Output} {r : Receiver} {c c' : Controller}

theorem mem_offer {tasks : List Task} {t u : Task} (h : t ∈ offer tasks u) : t ∈ tasks ∨ t = u := by
  rw [offer] at h
  split at h
  · simpa using h
  · exact .inl h

/-- A byte keeps the runs together, whatever it is. -/
theorem receiveByte_fedTwins (h : FedTwins log log' r c c') (b : UInt8) :
    FedTwins log log' (r.step ipcFormat b).1 (c.receiveByte b) (c'.receiveByte b) := by
  obtain ⟨hnext, hout, hpacket⟩ := Ipc.step_follows h.represents b
  obtain ⟨hnext', hout', hpacket'⟩ := Ipc.step_follows h.represents' b
  have htasks : (c.receiveByte b).tasks = (c'.receiveByte b).tasks := by
    simp only [receiveByte, offerAll, hout, hout', h.tasks_eq]
  refine ⟨⟨h.saved, h.userApplication_eq, h.position_eq, h.outputs_eq⟩, hnext, hnext', htasks, ?_⟩
  have hold (t : Task) (ht : t ∈ c.tasks) :
      SamePacket (c.receiveByte b).ipc (c'.receiveByte b).ipc t := by
    have hsame := h.packets t ht
    cases t with
    | stateMachine eventData => trivial
    | postProcessing params => exact ⟨hsame.1, hsame.2.step h.represents h.represents' b⟩
  intro t ht
  simp only [receiveByte, offerAll, hout] at ht
  cases hp : (r.step ipcFormat b).2 with
  | none =>
    rw [hp] at ht
    exact hold t ht
  | some packet =>
    obtain ⟨hadmits, hpayload⟩ := hpacket packet hp
    obtain ⟨_, hpayload'⟩ := hpacket' packet hp
    rw [hp] at ht
    rcases mem_offer ht with ht | rfl
    · exact hold t ht
    · change 0 < (UInt8.ofNat packet.payload.length).toNat ∧
        SameTo _ _ (UInt8.ofNat packet.payload.length).toNat
      rw [ofNat_toNat_of_le hadmits.2]
      exact ⟨hadmits.1, sameTo_of_received hpayload hpayload'⟩

theorem run_fedTwins (h : FedTwins log log' r c c') (bytes : List UInt8) :
    FedTwins log log' (r.feed ipcFormat bytes).1
      (Machine.run step c (bytes.map .receivedByte))
      (Machine.run step c' (bytes.map .receivedByte)) := by
  induction bytes generalizing r c c' with
  | nil => exact h
  | cons b rest ih => exact ih (receiveByte_fedTwins h b)

theorem FedTwins.drainTwins (h : FedTwins log log' r c c') : DrainTwins log log' c c' where
  toTwins := h.toTwins
  split := ⟨c.tasks, [], by simp, by simp [h.tasks_eq], h.packets, nofun⟩

private theorem Twins.saved' (h : Twins log log' c c') : c'.Saved := by
  rw [Saved, params, ← h.userApplication_eq]
  exact h.saved

private theorem runStateMachine_twins {eventData eventData' : UserApplicationStateMachineEventData}
    {rest rest' : List Task} (h : Twins log log' c c')
    (ht : c.tasks = .stateMachine eventData :: rest)
    (ht' : c'.tasks = .stateMachine eventData' :: rest') (hlength : rest.length = rest'.length)
    (hsame : userApplicationStateMachineEventHandler c.userApplication c.position eventData =
      userApplicationStateMachineEventHandler c.userApplication c.position eventData') :
    Twins log log' (c.runStateMachine eventData) (c'.runStateMachine eventData') ∧
      ∃ more : List Bool, (∀ b ∈ more, b = false) ∧
        (c.runStateMachine eventData).tasks = rest ++ more.map c.late ∧
        (c'.runStateMachine eventData').tasks = rest' ++ more.map c'.late := by
  have hsaved' := h.saved'
  have hhandler : userApplicationStateMachineEventHandler c.userApplication c.position eventData =
      userApplicationStateMachineEventHandler c'.userApplication c'.position eventData' := by
    rw [hsame, h.userApplication_eq, h.position_eq]
  obtain ⟨outputs, hlog, hlog'⟩ := h.outputs_eq
  constructor
  · refine ⟨(runStateMachine_turn h.saved ht).saved h.saved, congrArg Prod.fst hhandler,
      h.position_eq, outputs ++ (userApplicationStateMachineEventHandler c.userApplication
        c.position eventData).2.filterMap visible, ?_, ?_⟩
    · rw [← List.append_assoc, ← hlog]
      rfl
    · rw [hhandler, ← List.append_assoc, ← hlog']
      rfl
  · rw [runStateMachine_tasks h.saved ht, runStateMachine_tasks hsaved' ht', ← hhandler, ht, ht',
      List.length_cons, List.length_cons, hlength]
    by_cases hroom : rest'.length + 1 < schedulerMaxQueueSize
    · rw [if_pos hroom]
      rcases queued_cases h.saved eventData with hq | hq
      · exact ⟨[], nofun, by rw [hq]; rfl, by rw [hq]; rfl⟩
      · exact ⟨[false], by simp, by rw [hq]; rfl, by rw [hq]; rfl⟩
    · rw [if_neg hroom]
      exact ⟨[], nofun, rfl, rfl⟩

private theorem runPostProcessing_twins {params : IpcReceivedDataPacketPostProcessingParams}
    {rest rest' : List Task} (h : Twins log log' c c') (ht : c.tasks = .postProcessing params :: rest)
    (ht' : c'.tasks = .postProcessing params :: rest') (hlength : rest.length = rest'.length)
    (hsame : SameTo c.ipc c'.ipc params.receivedDataSize.toNat) :
    Twins log log' (c.runPostProcessing params) (c'.runPostProcessing params) ∧
      ∃ more : List Bool, (c.runPostProcessing params).tasks = rest ++ more.map c.late ∧
        (c'.runPostProcessing params).tasks = rest' ++ more.map c'.late := by
  have hreceived := hsame.received_eq
  have hstatus : (ipcReceivedDataPacketPostProcessingHandler c.ipc params).receptionStatus =
      (ipcReceivedDataPacketPostProcessingHandler c'.ipc params).receptionStatus := by
    simp only [ipcReceivedDataPacketPostProcessingHandler, hreceived]
  obtain ⟨outputs, hlog, hlog'⟩ := h.outputs_eq
  rw [runPostProcessing_eq ht, runPostProcessing_eq ht', ← hstatus, ← hreceived]
  constructor
  · let output : Output :=
      .received (ipcReceivedDataPacketPostProcessingHandler c.ipc params).receptionStatus
        (c.ipc.received params.receivedDataSize.toNat)
    refine ⟨h.saved, h.userApplication_eq, h.position_eq, outputs ++ [output], ?_, ?_⟩
    · rw [← List.append_assoc, ← hlog]
    · rw [← List.append_assoc, ← hlog']
  · dsimp only
    rw [ht, ht', List.length_cons, List.length_cons, hlength]
    split
    · exact ⟨[true], rfl, rfl⟩
    · exact ⟨[], rfl, rfl⟩

private theorem handler_congr {cmd cmd' : UserApplicationMessagesCmdSetStepperMotorAngle}
    (app : UserApplication) (currentEncoderPosition : Nat) (htype : cmd.cmdType = cmd'.cmdType)
    (hposition : Accepts app ⟨.processCmdRequest, cmd⟩ →
      requestedPosition cmd = requestedPosition cmd') :
    userApplicationStateMachineEventHandler app currentEncoderPosition ⟨.processCmdRequest, cmd⟩ =
      userApplicationStateMachineEventHandler app currentEncoderPosition
        ⟨.processCmdRequest, cmd'⟩ := by
  unfold userApplicationStateMachineEventHandler
  cases hstate : app.userApplicationStateMachineState with
  | calibration => rfl
  | execution => rfl
  | ready =>
    dsimp only
    rw [← htype]
    split
    · have hsame := hposition ⟨hstate, rfl, ‹_›⟩
      simp only [setStepperMotorAngle, hsame, htype]
    · rfl

private theorem requested_eq {eventData : UserApplicationStateMachineEventData} {rest : List Task}
    (ht : c.tasks = .stateMachine eventData :: rest) :
    c.requested = if Accepts c.userApplication eventData then
      some (requestedPosition eventData.processCmdRequestEventData) else none := by
  rw [requested, ht]

private theorem execute_command : c.execute.command = c.command := by
  rw [command, execute_frame.1, command]

private theorem execute_late : c.execute.late = c.late := by
  funext b
  cases b with
  | true => exact congrArg (fun cmd => Task.stateMachine ⟨.processCmdRequest, cmd⟩) execute_command
  | false => rfl

private theorem stateMachine_drainTwins
    {eventData eventData' : UserApplicationStateMachineEventData}
    (front : List Task) (back : List Bool) (h : Twins log log' c c')
    (ht : c.tasks = .stateMachine eventData :: (front ++ back.map c.late))
    (ht' : c'.tasks = .stateMachine eventData' :: (front ++ back.map c'.late))
    (hpackets : ∀ t ∈ front, SamePacket c.ipc c'.ipc t)
    (hfirst : true ∈ back → SameTo c.ipc c'.ipc 1)
    (hsame : userApplicationStateMachineEventHandler c.userApplication c.position eventData =
      userApplicationStateMachineEventHandler c.userApplication c.position eventData') :
    DrainTwins log log' c.execute c'.execute := by
  obtain ⟨htwins, more, hfalse, htasks, htasks'⟩ := runStateMachine_twins h ht ht' (by simp) hsame
  rw [← execute_stateMachine ht] at htwins htasks
  rw [← execute_stateMachine ht'] at htwins htasks'
  refine ⟨htwins, front, back ++ more, ?_, ?_, ?_, ?_⟩
  · rw [htasks, execute_late, List.map_append, List.append_assoc]
  · rw [htasks', execute_late, List.map_append, List.append_assoc]
  · rw [execute_frame.1, execute_frame.1]
    exact hpackets
  · rw [execute_frame.1, execute_frame.1, List.mem_append]
    rintro (hback | hmore)
    · exact hfirst hback
    · cases hfalse true hmore

private theorem accepts_late_iff (app : UserApplication)
    (htype : c.command.cmdType = c'.command.cmdType) :
    Accepts app (c.lateEvent true) ↔ Accepts app (c'.lateEvent true) :=
  ⟨fun h => ⟨h.1, rfl, htype.symm.trans h.2.2⟩, fun h => ⟨h.1, rfl, htype.trans h.2.2⟩⟩

/-- A turn keeps the runs together unless they take commands for different positions. -/
theorem execute_drainTwins (h : DrainTwins log log' c c') (hrequested : c.requested = c'.requested) :
    DrainTwins log log' c.execute c'.execute := by
  obtain ⟨front, back, ht, ht', hpackets, hfirst⟩ := h.split
  cases front with
  | cons t front =>
    rw [List.cons_append] at ht ht'
    have hrest := fun u hu => hpackets u (List.mem_cons_of_mem t hu)
    cases t with
    | stateMachine eventData => exact stateMachine_drainTwins front back h.toTwins ht ht' hrest hfirst rfl
    | postProcessing params =>
      obtain ⟨hsize, hsame⟩ := hpackets _ List.mem_cons_self
      obtain ⟨htwins, more, htasks, htasks'⟩ :=
        runPostProcessing_twins h.toTwins ht ht' (by simp) hsame
      rw [← execute_postProcessing ht] at htwins htasks
      rw [← execute_postProcessing ht'] at htwins htasks'
      refine ⟨htwins, front, back ++ more, ?_, ?_, ?_, ?_⟩
      · rw [htasks, execute_late, List.map_append, List.append_assoc]
      · rw [htasks', execute_late, List.map_append, List.append_assoc]
      · rw [execute_frame.1, execute_frame.1]
        exact hrest
      · rw [execute_frame.1, execute_frame.1]
        exact fun _ k hk => hsame k (by omega)
  | nil =>
    rw [List.nil_append] at ht ht'
    cases back with
    | nil =>
      have he : c.execute = c := execute_idle ht
      have he' : c'.execute = c' := execute_idle ht'
      rw [he, he']
      exact h
    | cons b back =>
      rw [List.map_cons, late] at ht ht'
      refine stateMachine_drainTwins [] back h.toTwins ht ht' (List.forall_mem_nil _)
        (fun hb => hfirst (List.mem_cons_of_mem b hb)) ?_
      rw [requested_eq ht, requested_eq ht', ← h.userApplication_eq] at hrequested
      cases b with
      | false => rfl
      | true =>
        have htype : c.command.cmdType = c'.command.cmdType :=
          hfirst List.mem_cons_self 0 Nat.zero_lt_one
        refine handler_congr _ _ htype fun (haccept : Accepts _ (c.lateEvent true)) => ?_
        rw [if_pos haccept, if_pos ((accepts_late_iff _ htype).mp haccept)] at hrequested
        exact Option.some.inj hrequested

private theorem turn_requested {eventData : UserApplicationStateMachineEventData} {rest : List Task}
    {next : Controller} (hturn : Turn c eventData rest next) :
    next.params = c.params ∨ Accepts c.userApplication eventData ∧
      next.params.positionRequested = requestedPosition eventData.processCmdRequestEventData := by
  cases hturn with
  | immediate haccept => exact .inr ⟨haccept, rfl⟩
  | anticlockwise haccept => exact .inr ⟨haccept, rfl⟩
  | clockwise haccept => exact .inr ⟨haccept, rfl⟩
  | _ => exact .inl rfl

private theorem late_turn {b : Bool} {back : List Bool} (hsaved : c.Saved)
    (ht : c.tasks = c.late b :: back.map c.late) :
    (∃ back : List Bool, c.execute.tasks = back.map c.execute.late) ∧
      Turn c (c.lateEvent b) (back.map c.late) c.execute := by
  rw [late] at ht
  rw [execute_late, execute_stateMachine ht]
  refine ⟨?_, runStateMachine_turn hsaved ht⟩
  rw [runStateMachine_tasks hsaved ht]
  split
  · rcases queued_cases hsaved (c.lateEvent b) with hq | hq
    · exact ⟨back, by rw [hq, List.append_nil]⟩
    · exact ⟨back ++ [false], by rw [hq, List.map_append]; rfl⟩
  · exact ⟨back, List.append_nil _⟩

private theorem execute_leftover {position : Nat} (h : Leftover position c) :
    Leftover position c.execute := by
  obtain ⟨back, ht⟩ := h.tasks_late
  cases back with
  | nil =>
    have he : c.execute = c := execute_idle ht
    rw [he]
    exact h
  | cons b back =>
    obtain ⟨htasks, hturn⟩ := late_turn h.saved ht
    refine ⟨hturn.saved h.saved, htasks, by rw [execute_command, h.command_eq], ?_⟩
    rcases turn_requested hturn with hparams | ⟨haccept, hrequested⟩
    · rw [hparams, h.requested_eq]
    · rw [hrequested, ← h.command_eq]
      cases b with
      | true => rfl
      | false => cases haccept.2.1

private theorem run_leftover {position : Nat} (h : Leftover position c) (turns : Nat) :
    Leftover position (Machine.run step c (List.replicate turns .execute)) :=
  Machine.run_replicate_invariant turns h fun _ hc => execute_leftover hc

private theorem taken_leftover {back : List Bool} (hsaved : c.Saved)
    (ht : c.tasks = c.late true :: back.map c.late)
    (haccept : Accepts c.userApplication (c.lateEvent true)) :
    Leftover (requestedPosition c.command) c.execute := by
  obtain ⟨htasks, hturn⟩ := late_turn hsaved ht
  refine ⟨hturn.saved hsaved, htasks, by rw [execute_command], ?_⟩
  rw [params, (hturn.accepted haccept).1]
  rfl

/-- Runs that take commands for different positions part for good. -/
theorem execute_parts (h : DrainTwins log log' c c') (hrequested : c.requested ≠ c'.requested) :
    Accepts c.userApplication (c.lateEvent true) ∧
      requestedPosition c.command ≠ requestedPosition c'.command ∧
      Leftover (requestedPosition c.command) c.execute ∧
      Leftover (requestedPosition c'.command) c'.execute := by
  obtain ⟨front, back, ht, ht', _, hfirst⟩ := h.split
  rcases front with _ | ⟨t, front⟩
  · rcases back with _ | ⟨b, back⟩
    · refine absurd ?_ hrequested
      rw [requested, requested, ht, ht']
      rfl
    · rw [List.nil_append, List.map_cons] at ht ht'
      have hif := requested_eq ht
      have hif' := requested_eq ht'
      rw [← h.userApplication_eq] at hif'
      cases b with
      | false => exact absurd (hif.trans hif'.symm) hrequested
      | true =>
        have htype : c.command.cmdType = c'.command.cmdType :=
          hfirst List.mem_cons_self 0 Nat.zero_lt_one
        have hiff := accepts_late_iff c.userApplication htype
        by_cases haccept : Accepts c.userApplication (c.lateEvent true)
        · have haccept' := hiff.mp haccept
          rw [if_pos haccept] at hif
          rw [if_pos haccept'] at hif'
          refine ⟨haccept, fun heq => hrequested ?_, taken_leftover h.saved ht haccept,
            taken_leftover h.saved' ht' (by rwa [← h.userApplication_eq])⟩
          rw [hif, hif']
          exact congrArg some heq
        · rw [if_neg haccept] at hif
          rw [if_neg (hiff.not.mp haccept)] at hif'
          exact absurd (hif.trans hif'.symm) hrequested
  · refine absurd ?_ hrequested
    rw [List.cons_append] at ht ht'
    cases t with
    | postProcessing params => rw [requested, requested, ht, ht']
    | stateMachine eventData => rw [requested_eq ht, requested_eq ht', h.userApplication_eq]

def AskAlike (p : Controller × Controller) (_ : Input) : Prop := p.1.requested = p.2.requested

/-- Drained turn by turn, the runs stay together exactly while they ask for the same, and
otherwise end with different requested positions. -/
theorem drain_twins (h : DrainTwins log log' c c') (turns : Nat) :
    let inputs := List.replicate turns Input.execute
    let last := Machine.run step c inputs
    let last' := Machine.run step c' inputs
    (Machine.Meets (Machine.pair step step) AskAlike (c, c') inputs ∧
      Twins log log' last last') ∨
    (¬ Machine.Meets (Machine.pair step step) AskAlike (c, c') inputs ∧
      last.params.positionRequested ≠ last'.params.positionRequested) := by
  induction turns generalizing c c' with
  | zero => exact .inl ⟨trivial, h.toTwins⟩
  | succ turns ih =>
    by_cases hrequested : c.requested = c'.requested
    · rcases ih (execute_drainTwins h hrequested) with ⟨hmeets, htwins⟩ | ⟨hmeets, hparts⟩
      · exact .inl ⟨⟨hrequested, hmeets⟩, htwins⟩
      · exact .inr ⟨fun hm => hmeets hm.2, hparts⟩
    · obtain ⟨_, hne, hleft, hleft'⟩ := execute_parts h hrequested
      refine .inr ⟨fun hm => hrequested hm.1, ?_⟩
      change (Machine.run step c.execute _).params.positionRequested ≠
        (Machine.run step c'.execute _).params.positionRequested
      rw [(run_leftover hleft turns).requested_eq, (run_leftover hleft' turns).requested_eq]
      exact hne

/-- Runs whose buffers hold one command, or none of the type that is taken, stay together. -/
theorem askAlike_of_command (h : DrainTwins log log' c c')
    (hcommand : c.command = c'.command ∨
      c.command.cmdType ≠ userApplicationMessagesCmdTypeSetStepperMotorAngle) (turns : Nat) :
    Machine.Meets (Machine.pair step step) AskAlike (c, c') (List.replicate turns .execute) := by
  induction turns generalizing c c' with
  | zero => trivial
  | succ turns ih =>
    have hrequested : c.requested = c'.requested := by
      by_contra hne
      obtain ⟨haccept, hposition, _⟩ := execute_parts h hne
      rcases hcommand with heq | htype
      · exact hposition (congrArg requestedPosition heq)
      · exact htype haccept.2.2
    have hnext : c.execute.command = c'.execute.command ∨ c.execute.command.cmdType ≠
        userApplicationMessagesCmdTypeSetStepperMotorAngle := by
      rwa [execute_command, execute_command]
    exact ⟨hrequested, ih (execute_drainTwins h hrequested) hnext⟩

end Controller
end ClosedLoopStepper.Device
