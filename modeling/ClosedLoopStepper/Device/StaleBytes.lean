import ClosedLoopStepper.Device.Twins

/-! Whether stale bytes of the receive buffer matter. A packet shorter than a command is
copied with the bytes behind it, which an earlier packet has left there. -/
namespace ClosedLoopStepper.Device
open Foundations Foundations.Framing Common Scheduler Ipc Encoder StepperMotor Application

namespace Controller
variable {log log' : List Output} {r : Receiver} {c c' : Controller}

structure Receiving (c : Controller) : Prop where
  saved : c.Saved
  represents : ∃ r, Represents c.ipc r
  sized : ∀ params, .postProcessing params ∈ c.tasks → 0 < params.receivedDataSize.toNat

/-- A byte adds at most the packet that it completes. -/
theorem receiveByte_packets (hr : Represents c.ipc r) {b : UInt8}
    {params : IpcReceivedDataPacketPostProcessingParams}
    (hmem : .postProcessing params ∈ (c.receiveByte b).tasks) :
    .postProcessing params ∈ c.tasks ∨ ∃ packet ∈ (r.step ipcFormat b).2,
      ipcFormat.Admits packet.payload ∧
        params.receivedDataSize.toNat = packet.payload.length := by
  obtain ⟨_, hout, hpacket⟩ := Ipc.step_follows hr b
  simp only [receiveByte, offerAll, hout] at hmem
  cases hp : (r.step ipcFormat b).2 with
  | none =>
    rw [hp] at hmem
    exact .inl hmem
  | some packet =>
    obtain ⟨hadmits, _⟩ := hpacket packet hp
    rw [hp] at hmem
    rcases mem_offer hmem with hold | hnew
    · exact .inl hold
    · rw [Task.postProcessing.inj hnew]
      exact .inr ⟨packet, rfl, hadmits, ofNat_toNat_of_le hadmits.2⟩

private theorem receiveByte_receiving (h : c.Receiving) (b : UInt8) :
    (c.receiveByte b).Receiving := by
  obtain ⟨r, hr⟩ := h.represents
  refine ⟨h.saved, ⟨_, (Ipc.step_follows hr b).1⟩, fun params hmem => ?_⟩
  rcases receiveByte_packets hr hmem with hold | ⟨packet, _, hadmits, hsize⟩
  · exact h.sized params hold
  · rw [hsize]
    exact hadmits.1

/-- No turn puts a packet. -/
theorem execute_packets (hsaved : c.Saved) {params : IpcReceivedDataPacketPostProcessingParams}
    (hmem : .postProcessing params ∈ c.execute.tasks) : .postProcessing params ∈ c.tasks := by
  rcases execute_cases hsaved with ⟨_, he⟩ | ⟨params', rest, ht, he⟩ | ⟨eventData, rest, ht, _⟩
  · rwa [he] at hmem
  · rw [he, runPostProcessing_eq ht] at hmem
    rw [ht]
    refine List.mem_cons_of_mem _ ((List.mem_append.mp hmem).resolve_right fun hnew => ?_)
    split at hnew
    · cases List.mem_singleton.mp hnew
    · cases hnew
  · rw [execute_stateMachine ht, runStateMachine_tasks hsaved ht] at hmem
    rw [ht]
    refine List.mem_cons_of_mem _ ((List.mem_append.mp hmem).resolve_right fun hnew => ?_)
    split at hnew
    · rcases queued_cases hsaved eventData with hq | hq
      · rw [hq] at hnew
        cases hnew
      · rw [hq] at hnew
        cases List.mem_singleton.mp hnew
    · cases hnew

theorem step_receiving (h : c.Receiving) (i : Input) : (c.step i).Receiving := by
  cases i with
  | receivedByte b => exact receiveByte_receiving h b
  | pinTransition gpio eventMask levelA levelB =>
    refine ⟨h.saved, h.represents, fun params hmem => h.sized params ?_⟩
    change _ ∈ (c.pinTransition gpio eventMask levelA levelB).tasks at hmem
    rcases c.pinTransition_tasks gpio eventMask levelA levelB with htasks | ⟨type, _, htasks⟩
    · rwa [htasks] at hmem
    · rw [htasks] at hmem
      exact (List.mem_append.mp hmem).resolve_right fun hnew => by cases List.mem_singleton.mp hnew
  | execute =>
    refine ⟨step_saved h.saved .execute, ?_, fun params hmem => ?_⟩
    · obtain ⟨r, hr⟩ := h.represents
      refine ⟨r, ?_⟩
      change Represents c.execute.ipc r
      rwa [execute_frame.1]
    · exact h.sized params (execute_packets h.saved hmem)

theorem start_receiving : start.Receiving :=
  ⟨start_saved, ⟨.hunting false, rfl, rfl⟩, fun params hmem => by cases List.mem_singleton.mp hmem⟩

end Controller

/-- What the application has done from one state to a later one. -/
structure Outcome where
  state : UserApplicationStateMachineState
  positionRequested : Nat
  motorCommands : List Drive
  responses : List (List UInt8)
  deriving DecidableEq

def Output.motorCommand : Output → Option Drive
  | .drive call => some call
  | _ => none

def Output.response : Output → Option (List UInt8)
  | .transmitted bytes => some bytes
  | _ => none

def Firmware.outcome (fw last : Firmware (SchedulerParams Handler)) : Outcome where
  state := last.userApplication.userApplicationStateMachineState
  positionRequested := last.userApplication.userApplicationStateMachineParams.positionRequested
  motorCommands := (last.log.drop fw.log.length).filterMap Output.motorCommand
  responses := (last.log.drop fw.log.length).filterMap Output.response

/-- The same application state, encoder position, queue contents and idle parser; of the
two buffers only the bytes of the packets that are pending are the same. -/
structure Alike (fw fw' : Firmware (SchedulerParams Handler)) : Prop where
  userApplication_eq : fw.userApplication = fw'.userApplication
  position_eq : encoderDrvGetEncoderPosition fw.encoder = encoderDrvGetEncoderPosition fw'.encoder
  tasks_eq : fw.controller.tasks = fw'.controller.tasks
  idle : fw.ipc.ipcStateMachineState = .idle
  idle' : fw'.ipc.ipcStateMachineState = .idle
  params_eq : fw.ipc.ipcStateMachineParams = fw'.ipc.ipcStateMachineParams
  packets : ∀ params, .postProcessing params ∈ fw.controller.tasks →
    SameTo fw.ipc fw'.ipc params.receivedDataSize.toNat

section Alike
variable {fw fw' : Firmware (SchedulerParams Handler)}

/-- An idle parser hunts for a header. -/
theorem hunting_of_idle {ipc : IpcComponent Handler} {r : Receiver} (h : Represents ipc r)
    (hidle : ipc.ipcStateMachineState = .idle) : ∃ half, r = .hunting half := by
  cases r with
  | hunting half => exact ⟨half, rfl⟩
  | length => cases hidle.symm.trans h.1
  | data expected payload => cases hidle.symm.trans h.1
  | check payload => cases hidle.symm.trans h.1

theorem not_half_of_index {ipc : IpcComponent Handler} {half : Bool}
    (h : Represents ipc (.hunting half))
    (hindex : ipc.ipcStateMachineParams.currentHeaderParamIndex = 0) : half = false := by
  rw [h.2] at hindex
  cases half with
  | false => rfl
  | true => cases hindex

private theorem Alike.fedTwins (h : Alike fw fw') (hr : fw.controller.Receiving)
    (hr' : fw'.controller.Receiving) :
    ∃ half, Controller.FedTwins fw.log fw'.log (.hunting half) fw.controller fw'.controller := by
  obtain ⟨r, hrep⟩ := hr.represents
  obtain ⟨r', hrep'⟩ := hr'.represents
  obtain ⟨half, rfl⟩ := hunting_of_idle hrep h.idle
  obtain ⟨half', rfl⟩ := hunting_of_idle hrep' h.idle'
  have hhalf : half = half' := by
    have hparams := hrep.2.symm.trans (h.params_eq.trans hrep'.2)
    cases half <;> cases half' <;> first | rfl | simp at hparams
  subst hhalf
  refine ⟨half, ⟨hr.saved, h.userApplication_eq, h.position_eq, [], ?_, ?_⟩, hrep, hrep',
    h.tasks_eq, ?_⟩
  · exact (List.append_nil _).symm
  · exact (List.append_nil _).symm
  · intro t ht
    cases t with
    | stateMachine eventData => trivial
    | postProcessing params => exact ⟨hr.sized params ht, h.packets params ht⟩

private theorem outcome_eq {last last' : Firmware (SchedulerParams Handler)}
    (h : Controller.Twins fw.log fw'.log last.controller last'.controller) :
    fw.outcome last = fw'.outcome last' := by
  obtain ⟨outputs, hlog, hlog'⟩ := h.outputs_eq
  have happ : last.userApplication = last'.userApplication := h.userApplication_eq
  have hdrop : last.log.drop fw.log.length = outputs := by
    change last.controller.log.drop fw.log.length = outputs
    rw [hlog, List.drop_left]
  have hdrop' : last'.log.drop fw'.log.length = outputs := by
    change last'.controller.log.drop fw'.log.length = outputs
    rw [hlog', List.drop_left]
  rw [Firmware.outcome, Firmware.outcome, happ, hdrop, hdrop']

private theorem meets_askAlike {fed fed' : Firmware (SchedulerParams Handler)} (hsound : Sound fed)
    (hsound' : Sound fed') (inputs : List Input) :
    Machine.Meets (Machine.pair Firmware.step Firmware.step)
        (fun p i => Controller.AskAlike (p.1.controller, p.2.controller) i) (fed, fed') inputs ↔
      Machine.Meets (Machine.pair Controller.step Controller.step) Controller.AskAlike
        (fed.controller, fed'.controller) inputs :=
  (arrays_refinement.pair arrays_refinement).meets_view
    ⟨⟨hsound.coherent, hsound.regular⟩, hsound'.coherent, hsound'.regular⟩ inputs

/-- The outcome of some turns is the same exactly while both sides ask for the same. -/
theorem drain_outcome {fed fed' : Firmware (SchedulerParams Handler)} (hsound : Sound fed)
    (hsound' : Sound fed')
    (h : Controller.DrainTwins fw.log fw'.log fed.controller fed'.controller) (turns : Nat) :
    let inputs := List.replicate turns Input.execute
    fw.outcome (Machine.run Firmware.step fed inputs) =
        fw'.outcome (Machine.run Firmware.step fed' inputs) ↔
      Machine.Meets (Machine.pair Firmware.step Firmware.step)
        (fun p _ => p.1.controller.requested = p.2.controller.requested) (fed, fed') inputs := by
  intro inputs
  refine Iff.trans ?_ (meets_askAlike hsound hsound' inputs).symm
  rcases Controller.drain_twins h turns with ⟨hm, hsame⟩ | ⟨hm, hparts⟩
  · rw [← (run_sound hsound inputs).2, ← (run_sound hsound' inputs).2] at hsame
    exact iff_of_true (outcome_eq hsame) hm
  · rw [← (run_sound hsound inputs).2, ← (run_sound hsound' inputs).2] at hparts
    exact iff_of_false (fun heq => hparts (congrArg Outcome.positionRequested heq)) hm

end Alike

theorem run_receiving (inputs : List Input) :
    (Machine.run Firmware.step start inputs).controller.Receiving := by
  rw [run_controller]
  exact Machine.run_invariant inputs Controller.start_receiving
    fun _ i h => Controller.step_receiving h i

private theorem frame_received {log log' : List Output} {c c' : Controller} {payload : List UInt8}
    (hpayload : ipcFormat.Admits payload)
    (h : Controller.FedTwins log log' (.hunting false) c c') :
    let bytes := (ipcFormat.frame payload).map Input.receivedByte
    (Machine.run Controller.step c bytes).ipc.received payload.length = payload ∧
      (Machine.run Controller.step c' bytes).ipc.received payload.length = payload := by
  have hinit := Controller.run_fedTwins h
    (headerParamLsb :: headerParamMsb :: UInt8.ofNat payload.length :: payload)
  have hcheck : ((Receiver.hunting false).feed ipcFormat
      (headerParamLsb :: headerParamMsb :: UInt8.ofNat payload.length :: payload)).1 =
      .check payload := congrArg Prod.fst (Receiver.feed_frame_init hpayload)
  rw [hcheck] at hinit
  have hlast {ipc : IpcComponent Handler} (hipc : Represents ipc (.check payload)) (b : UInt8) :
      (ipcStateMachineEventHandler ipc b).1.received payload.length = payload :=
    ((Ipc.step_follows hipc b).2.2 _ rfl).2
  have hframe : ipcFormat.frame payload =
      (headerParamLsb :: headerParamMsb :: UInt8.ofNat payload.length :: payload) ++
        [dataPacketCrc payload] := rfl
  intro bytes
  simp only [bytes, hframe, List.map_append, Machine.run_append]
  exact ⟨hlast hinit.represents _, hlast hinit.represents' _⟩

/-- Alike states that two runs reach are twins, and so are the states after a frame. -/
theorem reached_twins (payload : List UInt8) (before before' : List Input)
    (h : Alike (Machine.run Firmware.step start before) (Machine.run Firmware.step start before')) :
    let fw := Machine.run Firmware.step start before
    let fw' := Machine.run Firmware.step start before'
    let fed := feedBytes fw (ipcFormat.frame payload)
    let fed' := feedBytes fw' (ipcFormat.frame payload)
    Sound fed ∧ Sound fed' ∧
      Controller.DrainTwins fw.log fw'.log fed.controller fed'.controller := by
  intro fw fw' fed fed'
  obtain ⟨hsound, hfed⟩ := feedBytes_sound (run_sound start_sound before).1 (ipcFormat.frame payload)
  obtain ⟨hsound', hfed'⟩ := feedBytes_sound (run_sound start_sound before').1 (ipcFormat.frame payload)
  obtain ⟨half, htwins⟩ := h.fedTwins (run_receiving before) (run_receiving before')
  have hdrain := (Controller.run_fedTwins htwins (ipcFormat.frame payload)).drainTwins
  rw [← hfed, ← hfed'] at hdrain
  exact ⟨hsound, hsound', hdrain⟩

/-- Two runs reach alike states, and the same frame is fed to both, whatever its payload.
Draining the scheduler then has the same outcome in both exactly if, turn by turn, the
command that the ready state takes asks for the same position in both. -/
theorem outcome_eq_iff (payload : List UInt8) (before before' : List Input)
    (h : Alike (Machine.run Firmware.step start before) (Machine.run Firmware.step start before')) :
    let fw := Machine.run Firmware.step start before
    let fw' := Machine.run Firmware.step start before'
    let fed := feedBytes fw (ipcFormat.frame payload)
    let fed' := feedBytes fw' (ipcFormat.frame payload)
    ∃ last last', fed.schedulerExecute (3 * schedulerMaxQueueSize) = some last ∧
      fed'.schedulerExecute (3 * schedulerMaxQueueSize) = some last' ∧
      (fw.outcome last = fw'.outcome last' ↔
        Machine.Meets (Machine.pair Firmware.step Firmware.step)
          (fun p _ => p.1.controller.requested = p.2.controller.requested) (fed, fed')
          (List.replicate (3 * schedulerMaxQueueSize) .execute)) := by
  intro fw fw' fed fed'
  obtain ⟨hsound, hsound', hdrain⟩ := reached_twins payload before before' h
  exact ⟨_, _, (schedulerExecute_drains hsound).1, (schedulerExecute_drains hsound').1,
    drain_outcome hsound hsound' hdrain _⟩

def leaving (payload : List UInt8) : List Input :=
  [.execute, .pinTransition encoderDrvPinZHome gpioIrqEdgeRise false false, .execute] ++
    (ipcFormat.frame payload).map .receivedByte ++ [.execute, .execute]

private theorem leaving_alike :
    Alike (Machine.run Firmware.step start (leaving [1, 0, 0]))
      (Machine.run Firmware.step start (leaving [1, 20, 0])) := by
  have hnil : (Machine.run Firmware.step start (leaving [1, 0, 0])).controller.tasks = [] := by
    decide
  refine ⟨by decide, by decide, by decide, by decide, by decide, by decide, ?_⟩
  intro params hmem
  rw [hnil] at hmem
  cases hmem

theorem outcome_eq_whole_command :
    let fw := Machine.run Firmware.step start (leaving [1, 0, 0])
    let fw' := Machine.run Firmware.step start (leaving [1, 20, 0])
    ∃ last last',
      (feedBytes fw (ipcFormat.frame [0, 8, 0])).schedulerExecute (3 * schedulerMaxQueueSize) =
        some last ∧
      (feedBytes fw' (ipcFormat.frame [0, 8, 0])).schedulerExecute (3 * schedulerMaxQueueSize) =
        some last' ∧
      fw.outcome last = fw'.outcome last' := by
  intro fw fw'
  obtain ⟨last, last', hlast, hlast', hiff⟩ := outcome_eq_iff [0, 8, 0] _ _ leaving_alike
  exact ⟨last, last', hlast, hlast', hiff.mpr (by decide +kernel)⟩

/-- After the two packets, the one-byte frame of a command: the angle is taken from the
bytes that the packets have left, and only one of the two runs starts the motor. -/
theorem stale_angle_taken :
    let fw := Machine.run Firmware.step start (leaving [1, 0, 0])
    let fw' := Machine.run Firmware.step start (leaving [1, 20, 0])
    Alike fw fw' ∧
      ((feedBytes fw (ipcFormat.frame [0])).schedulerExecute (3 * schedulerMaxQueueSize)).map
          fw.outcome = some ⟨.ready, 0, [.stop], [ipcFormat.frame [0, 0, 0, 0]]⟩ ∧
      ((feedBytes fw' (ipcFormat.frame [0])).schedulerExecute (3 * schedulerMaxQueueSize)).map
          fw'.outcome = some ⟨.execution, 10, [.anticlockwise], []⟩ :=
  ⟨leaving_alike, by decide, by decide⟩

private theorem head?_received {ipc : IpcComponent Handler} {size : Nat} (h : 0 < size) :
    (ipc.received size).head? = some (ipc.ipcReceivedDataPacketBuffer 0) := by
  cases size with
  | zero => cases h
  | succ n =>
    rw [IpcComponent.received, List.range_succ_eq_map]
    rfl

/-- A frame whose header is looked for, and whose payload is a whole command or starts
with another type, decides the outcome alone. -/
theorem whole_command_outcome {payload : List UInt8} (hpayload : ipcFormat.Admits payload)
    (hcommand : 3 ≤ payload.length ∨
      payload.head? ≠ some userApplicationMessagesCmdTypeSetStepperMotorAngle)
    (before before' : List Input)
    (h : Alike (Machine.run Firmware.step start before) (Machine.run Firmware.step start before'))
    (hindex : (Machine.run Firmware.step start before).ipc.ipcStateMachineParams.currentHeaderParamIndex
      = 0) :
    let fw := Machine.run Firmware.step start before
    let fw' := Machine.run Firmware.step start before'
    let fed := feedBytes fw (ipcFormat.frame payload)
    let fed' := feedBytes fw' (ipcFormat.frame payload)
    ∃ last last', fed.schedulerExecute (3 * schedulerMaxQueueSize) = some last ∧
      fed'.schedulerExecute (3 * schedulerMaxQueueSize) = some last' ∧
      fw.outcome last = fw'.outcome last' := by
  intro fw fw' fed fed'
  obtain ⟨hsound, hsound', hdrain⟩ := reached_twins payload before before' h
  have hfed := (feedBytes_sound (run_sound start_sound before).1 (ipcFormat.frame payload)).2
  have hfed' := (feedBytes_sound (run_sound start_sound before').1 (ipcFormat.frame payload)).2
  obtain ⟨half, htwins⟩ := h.fedTwins (run_receiving before) (run_receiving before')
  have hhalf := not_half_of_index htwins.represents hindex
  subst hhalf
  obtain ⟨hreceived, hreceived'⟩ := frame_received hpayload htwins
  rw [← hfed] at hreceived
  rw [← hfed'] at hreceived'
  have hsame := sameTo_of_received hreceived hreceived'
  refine ⟨_, _, (schedulerExecute_drains hsound).1, (schedulerExecute_drains hsound').1, ?_⟩
  refine (drain_outcome hsound hsound' hdrain _).mpr ((meets_askAlike hsound hsound' _).mpr
    (Controller.askAlike_of_command hdrain ?_ _))
  rcases hcommand with hlong | htype
  · left
    simp only [Controller.command, UserApplicationMessagesCmdSetStepperMotorAngle.ofMemory]
    rw [hsame 0 (by omega), hsame 1 (by omega), hsame 2 (by omega)]
  · right
    rw [← hreceived, head?_received hpayload.1] at htype
    exact fun heq => htype (congrArg some heq)

end ClosedLoopStepper.Device
