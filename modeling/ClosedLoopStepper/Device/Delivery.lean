import ClosedLoopStepper.Commander.Ipc
import ClosedLoopStepper.Device.Drain

/-! Which packets reach the application. A byte stream is followed by the framing
receiver; every packet it hands over is either given to the application already, or
pending with its bytes still in the one buffer. -/
namespace ClosedLoopStepper.Device
open Foundations Foundations.Framing Common Scheduler Ipc Encoder StepperMotor Application

def receivedBytes (inputs : List Input) : List UInt8 :=
  inputs.filterMap fun
    | .receivedByte b => some b
    | _ => none

def delivered (log : List Output) : List (IpcReceptionStatus × List UInt8) :=
  log.filterMap fun
    | .received status payload => some (status, payload)
    | _ => none

def delivery (packet : Packet) : IpcReceptionStatus × List UInt8 :=
  (if dataPacketCrc packet.payload = packet.check then .ok else .packetCorrupted, packet.payload)

theorem delivery_ok_iff (packet : Packet) :
    (delivery packet).1 = .ok ↔ dataPacketCrc packet.payload = packet.check := by
  rw [delivery]
  dsimp only
  split
  · exact ⟨fun _ => ‹_›, fun _ => rfl⟩
  · exact ⟨fun hok => absurd hok (by decide), fun heq => absurd heq ‹_›⟩

/-- The packet a task stands for, read from the buffer as it is. -/
def Controller.pendingPacket (ipc : IpcComponent Handler) : Task → Option Packet
  | .postProcessing params =>
    some ⟨ipc.received params.receivedDataSize.toNat, params.expectedDataCrc⟩
  | .stateMachine _ => none

namespace Controller

def awaiting (c : Controller) : List Packet := c.tasks.filterMap (pendingPacket c.ipc)

/-- A packet that is complete finds room in the queue. -/
def PacketFits (c : Controller) : Input → Prop
  | .receivedByte b =>
    (ipcStateMachineEventHandler c.ipc b).2.isSome → c.tasks.length < schedulerMaxQueueSize
  | _ => True

/-- A byte to be stored at an offset does not change a task's packet. -/
def SparesTask (ipc : IpcComponent Handler) (offset : Nat) (b : UInt8) : Task → Prop
  | .postProcessing params =>
    offset < params.receivedDataSize.toNat → ipc.ipcReceivedDataPacketBuffer offset = b
  | .stateMachine _ => True

def SparesTasks (c : Controller) (b : UInt8) : Option Nat → Prop
  | some offset => ∀ t ∈ c.tasks, SparesTask c.ipc offset b t
  | none => True

/-- No payload byte is stored over a different byte of a packet that still waits. -/
def SparesAwaiting (c : Controller) : Input → Prop
  | .receivedByte b => c.SparesTasks b c.ipc.writeOffset
  | _ => True

instance (c : Controller) : ∀ i, Decidable (c.PacketFits i)
  | .receivedByte _ => inferInstanceAs (Decidable (_ → _))
  | .pinTransition .. => inferInstanceAs (Decidable True)
  | .execute => inferInstanceAs (Decidable True)

instance (ipc : IpcComponent Handler) (offset : Nat) (b : UInt8) :
    ∀ t, Decidable (SparesTask ipc offset b t)
  | .postProcessing _ => inferInstanceAs (Decidable (_ → _))
  | .stateMachine _ => inferInstanceAs (Decidable True)

instance (c : Controller) (b : UInt8) : ∀ offset, Decidable (c.SparesTasks b offset)
  | some offset => inferInstanceAs (Decidable (∀ t ∈ c.tasks, SparesTask c.ipc offset b t))
  | none => inferInstanceAs (Decidable True)

instance (c : Controller) : ∀ i, Decidable (c.SparesAwaiting i)
  | .receivedByte b => inferInstanceAs (Decidable (c.SparesTasks b c.ipc.writeOffset))
  | .pinTransition .. => inferInstanceAs (Decidable True)
  | .execute => inferInstanceAs (Decidable True)

variable {c : Controller}

private theorem awaiting_append (ipc : IpcComponent Handler) (a b : List Task) :
    (a ++ b).filterMap (pendingPacket ipc) =
      a.filterMap (pendingPacket ipc) ++ b.filterMap (pendingPacket ipc) :=
  List.filterMap_append

private theorem pendingPacket_spared {b : UInt8} {t : Task}
    (h : ∀ offset, c.ipc.writeOffset = some offset → SparesTask c.ipc offset b t) :
    pendingPacket (ipcStateMachineEventHandler c.ipc b).1 t = pendingPacket c.ipc t := by
  cases t with
  | stateMachine eventData => rfl
  | postProcessing params =>
    simp only [pendingPacket, IpcComponent.received, Option.some.injEq, Packet.mk.injEq, and_true]
    apply List.map_congr_left
    intro k hk
    rw [eventHandler_buffer]
    cases hoffset : c.ipc.writeOffset with
    | none => rfl
    | some offset =>
      by_cases hko : k = offset
      · subst hko
        dsimp only
        rw [Function.update_self]
        exact (h k hoffset (List.mem_range.mp hk)).symm
      · exact Function.update_of_ne hko _ _

/-- What one step adds to the packets handed over, and how far they have got. -/
theorem receiveByte_delivery {r : Receiver} {b : UInt8} (hr : Represents c.ipc r)
    (hfits : c.PacketFits (.receivedByte b)) (hspares : c.SparesAwaiting (.receivedByte b)) :
    Represents (c.receiveByte b).ipc (r.step ipcFormat b).1 ∧
      (c.receiveByte b).awaiting = c.awaiting ++ (r.step ipcFormat b).2.toList := by
  obtain ⟨hnext, hout, hpacket⟩ := Ipc.step_follows hr b
  refine ⟨hnext, ?_⟩
  have hold : c.tasks.filterMap (pendingPacket (ipcStateMachineEventHandler c.ipc b).1) =
      c.awaiting :=
    List.filterMap_congr fun t ht => pendingPacket_spared fun offset ho => by
      simp only [SparesAwaiting, SparesTasks, ho] at hspares
      exact hspares t ht
  have htasks : (c.receiveByte b).awaiting =
      (c.offerAll ((ipcStateMachineEventHandler c.ipc b).2.map Task.postProcessing).toList).filterMap
        (pendingPacket (ipcStateMachineEventHandler c.ipc b).1) := rfl
  rw [htasks]
  cases hp : (r.step ipcFormat b).2 with
  | none =>
    rw [hout, hp]
    simpa [offerAll] using hold
  | some packet =>
    obtain ⟨hadmits, hpayload⟩ := hpacket packet hp
    have hroom : c.tasks.length < schedulerMaxQueueSize := hfits (by rw [hout, hp]; rfl)
    rw [hout, hp]
    simp only [Option.map_some, Option.toList_some, offerAll, List.foldl_cons, List.foldl_nil, offer,
      if_pos hroom, awaiting_append, hold]
    simp [pendingPacket, postProcessingParams, ofNat_toNat_of_le hadmits.2, hpayload]

private theorem pinTransition_awaiting (gpio eventMask : Nat) (levelA levelB : Bool) :
    (c.pinTransition gpio eventMask levelA levelB).awaiting = c.awaiting := by
  change (c.pinTransition gpio eventMask levelA levelB).tasks.filterMap (pendingPacket c.ipc) = _
  rcases c.pinTransition_tasks gpio eventMask levelA levelB with h | ⟨type, _, h⟩
  · rw [h, awaiting]
  · rw [h, awaiting_append]
    exact List.append_nil _

theorem delivered_append (a b : List Output) : delivered (a ++ b) = delivered a ++ delivered b :=
  List.filterMap_append

/-- The state machine's turns leave the packets alone. -/
theorem turn_delivery {eventData : UserApplicationStateMachineEventData} {rest : List Task}
    {next : Controller} (h : Turn c eventData rest next) :
    delivered next.log = delivered c.log ∧
      next.awaiting = rest.filterMap (pendingPacket c.ipc) := by
  have hawaiting : next.awaiting = next.tasks.filterMap (pendingPacket c.ipc) := by
    cases h <;> rfl
  refine ⟨by cases h <;> simp [delivered], ?_⟩
  rcases h.tasks with htasks | htasks
  · rw [hawaiting, htasks]
  · rw [hawaiting, htasks, awaiting_append]
    exact List.append_nil _

theorem awaiting_stateMachine {eventData : UserApplicationStateMachineEventData} {rest : List Task}
    (ht : c.tasks = .stateMachine eventData :: rest) :
    c.awaiting = rest.filterMap (pendingPacket c.ipc) := by
  rw [awaiting, ht, List.filterMap_cons]
  rfl

section PostProcessing
variable {params : IpcReceivedDataPacketPostProcessingParams} {rest : List Task}

theorem awaiting_postProcessing (ht : c.tasks = .postProcessing params :: rest) :
    c.awaiting = ⟨c.ipc.received params.receivedDataSize.toNat, params.expectedDataCrc⟩ ::
      rest.filterMap (pendingPacket c.ipc) := by
  rw [awaiting, ht, List.filterMap_cons]
  rfl

theorem runPostProcessing_awaiting (ht : c.tasks = .postProcessing params :: rest) :
    (c.runPostProcessing params).awaiting = rest.filterMap (pendingPacket c.ipc) := by
  rw [runPostProcessing_eq ht]
  unfold awaiting
  dsimp only
  split <;> simp [commandTask, pendingPacket]

end PostProcessing

/-- A turn gives the first waiting packet to the application, or none. -/
theorem execute_delivery (hsaved : c.Saved) :
    delivered c.execute.log ++ c.execute.awaiting.map delivery =
      delivered c.log ++ c.awaiting.map delivery := by
  rcases execute_cases hsaved with ⟨_, he⟩ | ⟨params, rest, ht, he⟩ | ⟨eventData, rest, ht, hturn⟩
  · rw [he]
  · rw [he, runPostProcessing_awaiting ht, awaiting_postProcessing ht, runPostProcessing_eq ht]
    dsimp only
    rw [delivered_append, List.map_cons, List.append_assoc]
    rfl
  · obtain ⟨hlog, hawaiting⟩ := turn_delivery hturn
    rw [awaiting_stateMachine ht, hlog, hawaiting]

/-- Following a byte stream through a run: what has been given to the application and
what waits is what was handed over before and since. -/
theorem run_delivery {r : Receiver} {inputs : List Input} (hsaved : c.Saved)
    (hr : Represents c.ipc r) (hfits : Machine.Meets step PacketFits c inputs)
    (hspares : Machine.Meets step SparesAwaiting c inputs) :
    let last := Machine.run step c inputs
    let fed := r.feed ipcFormat (receivedBytes inputs)
    Represents last.ipc fed.1 ∧
      delivered last.log ++ last.awaiting.map delivery =
        delivered c.log ++ c.awaiting.map delivery ++ fed.2.map delivery := by
  induction inputs generalizing c r with
  | nil => exact ⟨hr, (List.append_nil _).symm⟩
  | cons i rest ih =>
    have hnext := step_saved hsaved i
    cases i with
    | receivedByte b =>
      obtain ⟨hrep, hawaiting⟩ := receiveByte_delivery hr hfits.1 hspares.1
      obtain ⟨hlast, hdelivered⟩ := ih hnext hrep hfits.2 hspares.2
      refine ⟨hlast, hdelivered.trans ?_⟩
      change delivered c.log ++ (c.receiveByte b).awaiting.map delivery ++ _ = _
      rw [hawaiting]
      simp [receivedBytes, Receiver.feed_cons]
    | pinTransition gpio eventMask levelA levelB =>
      obtain ⟨hlast, hdelivered⟩ := ih hnext hr hfits.2 hspares.2
      refine ⟨hlast, hdelivered.trans ?_⟩
      change delivered c.log ++ (c.pinTransition gpio eventMask levelA levelB).awaiting.map
        delivery ++ _ = _
      rw [pinTransition_awaiting]
      rfl
    | execute =>
      have hrep : Represents c.execute.ipc r := by
        rw [execute_frame.1]
        exact hr
      obtain ⟨hlast, hdelivered⟩ := ih hnext hrep hfits.2 hspares.2
      refine ⟨hlast, hdelivered.trans ?_⟩
      change delivered c.execute.log ++ c.execute.awaiting.map delivery ++ _ = _
      rw [execute_delivery hsaved]
      rfl

end Controller

def okPackets (log : List Output) : List (List UInt8) :=
  ((delivered log).filter fun d => d.1 = .ok).map Prod.snd

theorem delivery_packet (payload : List UInt8) :
    delivery (ipcFormat.packet payload) = (.ok, payload) := by
  have hcrc : dataPacketCrc (ipcFormat.packet payload).payload =
      (ipcFormat.packet payload).check := rfl
  rw [delivery, if_pos hcrc]
  rfl

private theorem okPackets_of_delivered {log : List Output} {awaiting : List Packet}
    {payloads : List (List UInt8)}
    (h : delivered log ++ awaiting.map delivery = payloads.map fun p => (.ok, p)) :
    okPackets log ++ awaiting.map Packet.payload = payloads := by
  obtain ⟨done, left, rfl, hdone, hleft⟩ := List.append_eq_map_iff.mp h
  have hok : okPackets log = done := by
    rw [okPackets, ← hdone, List.filter_eq_self.mpr (by simp), List.map_map]
    exact List.map_id done
  have hwaiting : awaiting.map Packet.payload = left := by
    have hsnd := congrArg (List.map Prod.snd) hleft
    rw [List.map_map, List.map_map] at hsnd
    exact hsnd.symm.trans (List.map_id left)
  rw [hok, hwaiting]

/-- Frames fed byte by byte, in any order with the turns of the loop and with other
interrupts: while packets find room and no byte is stored over a different one that still
waits, the payloads given to the application with status OK and those that wait are the
payloads sent, in order. -/
theorem packets_delivered {payloads : List (List UInt8)}
    (hpayloads : ∀ p ∈ payloads, ipcFormat.Admits p) (inputs : List Input)
    (hbytes : receivedBytes inputs <+: payloads.flatMap ipcFormat.frame)
    (hfits : Machine.Meets Firmware.step (fun fw i => fw.controller.PacketFits i) start inputs)
    (hspares : Machine.Meets Firmware.step
      (fun fw i => fw.controller.SparesAwaiting i) start inputs) :
    let c := (Machine.run Firmware.step start inputs).controller
    okPackets c.log ++ c.awaiting.map Packet.payload <+: payloads ∧
      (receivedBytes inputs = payloads.flatMap ipcFormat.frame →
        okPackets c.log ++ c.awaiting.map Packet.payload = payloads) := by
  intro c
  rw [meets_controller] at hfits hspares
  have hc : c = Machine.run Controller.step Controller.start inputs := run_controller inputs
  obtain ⟨_, hdelivered⟩ :=
    Controller.run_delivery Controller.start_saved (r := .hunting false) ⟨rfl, rfl⟩ hfits hspares
  rw [← hc] at hdelivered
  have hall := Receiver.feed_frames hpayloads
  obtain ⟨more, hmore⟩ := Receiver.feed_prefix ipcFormat (.hunting false) hbytes
  rw [hall] at hmore
  obtain ⟨done, left, hsplit, hdone, _⟩ := List.append_eq_map_iff.mp hmore
  have hok (ps : List (List UInt8)) :
      (ps.map ipcFormat.packet).map delivery = ps.map fun p => (.ok, p) := by
    rw [List.map_map]
    exact List.map_congr_left fun p _ => delivery_packet p
  constructor
  · rw [← hdone, hok] at hdelivered
    rw [okPackets_of_delivered hdelivered, hsplit]
    exact List.prefix_append _ _
  · intro hcomplete
    rw [hcomplete, hall, hok] at hdelivered
    exact okPackets_of_delivered hdelivered

/-- Two one-byte frames with the loop running in between. -/
theorem packets_delivered_between :
    let inputs := ([[0xA5, 0x5A, 1, 0, 0], [0xA5, 0x5A, 1, 1, 1]].map fun bytes =>
      bytes.map Input.receivedByte ++ List.replicate 3 .execute).flatten
    let c := (Machine.run Firmware.step start inputs).controller
    okPackets c.log ++ c.awaiting.map Packet.payload <+: [[0], [1]] ∧
      (receivedBytes inputs = [[0], [1]].flatMap ipcFormat.frame →
        okPackets c.log ++ c.awaiting.map Packet.payload = [[0], [1]]) :=
  packets_delivered (by decide) _ (by decide) (by decide) (by decide)

/-- The same two frames back to back: the second one's payload overwrites the first one's
before the deferred check, which then fails. -/
theorem back_to_back_frame_lost :
    let bytes := [[0], [1]].flatMap ipcFormat.frame
    let inputs := bytes.map Input.receivedByte ++ List.replicate 6 .execute
    let c := (Machine.run Firmware.step start inputs).controller
    Machine.Meets Firmware.step (fun fw i => fw.controller.PacketFits i) start inputs ∧
      c.tasks = [] ∧ okPackets c.log = [[1]] := by
  decide

end ClosedLoopStepper.Device
