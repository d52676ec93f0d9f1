import ClosedLoopStepper.Device.Delivery

/-! Frames between the two ends of the link, with the queue drained after each: what
either sender makes of a payload, the firmware hands to its application, and what the
firmware sends, the commander receives. -/
namespace ClosedLoopStepper.Device
open Foundations Foundations.Framing Common Scheduler Ipc

inductive Sender
  | commander | firmware
  deriving DecidableEq, Repr

def Sender.send : Sender → List UInt8 → List UInt8
  | commander, payload => (Commander.sendDataPacket payload).getD []
  | firmware, payload =>
    (ipcSendDataPacket (some (pointer payload)) (UInt8.ofNat payload.length)).2

structure Transfer where
  filler : List UInt8
  sender : Sender
  payload : List UInt8

def Transfer.bytes (t : Transfer) : List UInt8 := t.filler ++ t.sender.send t.payload

/-- The payload has an admitted length and the filler does not start a header. -/
def Transfer.Valid (t : Transfer) : Prop :=
  ipcFormat.Admits t.payload ∧ headerParamLsb ∉ t.filler

instance (t : Transfer) : Decidable t.Valid := inferInstanceAs (Decidable (_ ∧ _))

/-- The transfers' bytes arrive, and the execution loop empties the queue after each. -/
def exchange : Firmware (SchedulerParams Handler) → List Transfer →
    Option (Firmware (SchedulerParams Handler))
  | fw, [] => some fw
  | fw, t :: rest => do
    let fw ← (feedBytes fw t.bytes).schedulerExecute (3 * schedulerMaxQueueSize)
    exchange fw rest

theorem send_frame (sender : Sender) {payload : List UInt8} (h : ipcFormat.Admits payload) :
    sender.send payload = ipcFormat.frame payload := by
  cases sender with
  | commander => rw [Sender.send, Commander.sendDataPacket_frame h, Option.getD_some]
  | firmware => rw [Sender.send, ipcSendDataPacket_frame h]

private theorem receivedBytes_bytes (bytes : List UInt8) :
    receivedBytes (bytes.map Input.receivedByte) = bytes := by
  rw [receivedBytes, List.filterMap_map]
  exact List.filterMap_some

private theorem receivedBytes_executes (bytes : List UInt8) (turns : Nat) :
    receivedBytes (bytes.map Input.receivedByte ++ List.replicate turns .execute) = bytes := by
  have hnone : receivedBytes (List.replicate turns .execute) = [] := by
    rw [receivedBytes, List.filterMap_eq_nil_iff]
    intro i hi
    rw [List.eq_of_mem_replicate hi]
  refine Eq.trans ?_ (receivedBytes_bytes bytes)
  rw [receivedBytes, List.filterMap_append]
  change _ ++ receivedBytes (List.replicate turns .execute) = _
  rw [hnone, List.append_nil]
  rfl

namespace Controller
variable {c : Controller} {r : Receiver}

structure Clear (c : Controller) : Prop where
  no_packet : ∀ t ∈ c.tasks, pendingPacket c.ipc t = none
  room : c.tasks.length < schedulerMaxQueueSize

private theorem Clear.meets_byte (h : c.Clear) (b : UInt8) :
    c.PacketFits (.receivedByte b) ∧ c.SparesAwaiting (.receivedByte b) := by
  refine ⟨fun _ => h.room, ?_⟩
  rw [SparesAwaiting]
  cases c.ipc.writeOffset with
  | none => trivial
  | some offset =>
    intro t ht
    have hnone := h.no_packet t ht
    cases t with
    | postProcessing params => cases hnone
    | stateMachine eventData => trivial

/-- A byte that completes no packet puts nothing into the queue. -/
theorem silent_byte (hr : Represents c.ipc r) {b : UInt8} (hs : (r.step ipcFormat b).2 = none) :
    (c.receiveByte b).tasks = c.tasks := by
  obtain ⟨_, hout, _⟩ := Ipc.step_follows hr b
  rw [receiveByte, hout, hs]
  rfl

theorem Clear.silent (h : c.Clear) (hr : Represents c.ipc r) {b : UInt8}
    (hs : (r.step ipcFormat b).2 = none) : (c.receiveByte b).Clear := by
  have htasks := silent_byte hr hs
  constructor
  · intro t ht
    rw [htasks] at ht
    have hnone := h.no_packet t ht
    cases t with
    | postProcessing params => cases hnone
    | stateMachine eventData => rfl
  · rw [htasks]
    exact h.room

private theorem Clear.meets_bytes (h : c.Clear) (hr : Represents c.ipc r) {bytes : List UInt8}
    (hs : (r.feed ipcFormat bytes.dropLast).2 = []) :
    Machine.Meets step PacketFits c (bytes.map .receivedByte) ∧
      Machine.Meets step SparesAwaiting c (bytes.map .receivedByte) := by
  induction bytes generalizing c r with
  | nil => exact ⟨trivial, trivial⟩
  | cons b rest ih =>
    obtain ⟨hfits, hspares⟩ := h.meets_byte b
    cases rest with
    | nil => exact ⟨⟨hfits, trivial⟩, ⟨hspares, trivial⟩⟩
    | cons b' rest =>
      rw [List.dropLast_cons_cons, Receiver.feed_cons, List.append_eq_nil_iff] at hs
      have hnone : (r.step ipcFormat b).2 = none := by simpa using hs.1
      obtain ⟨hrestfits, hrestspares⟩ :=
        ih (h.silent hr hnone) (Ipc.step_follows hr b).1 hs.2
      exact ⟨⟨hfits, hrestfits⟩, ⟨hspares, hrestspares⟩⟩

private theorem meets_executes (c : Controller) (turns : Nat) :
    Machine.Meets step PacketFits c (List.replicate turns .execute) ∧
      Machine.Meets step SparesAwaiting c (List.replicate turns .execute) := by
  induction turns generalizing c with
  | zero => exact ⟨trivial, trivial⟩
  | succ turns ih => exact ⟨⟨trivial, (ih _).1⟩, ⟨trivial, (ih _).2⟩⟩

/-- Received bytes alone give nothing out. -/
theorem run_bytes_log (c : Controller) (bytes : List UInt8) :
    (Machine.run step c (bytes.map .receivedByte)).log = c.log := by
  induction bytes generalizing c with
  | nil => rfl
  | cons b rest ih => exact ih (c.receiveByte b)

private theorem clear_of_empty (h : c.tasks = []) : c.Clear where
  no_packet t ht := by
    rw [h] at ht
    cases ht
  room := by
    rw [h]
    decide

theorem Clear.awaiting (h : c.Clear) : c.awaiting = [] :=
  List.filterMap_eq_nil_iff.mpr h.no_packet

/-- A chunk of bytes with at most one packet, at its end, and the turns that follow. -/
theorem chunk_delivery (hsaved : c.Saved) (h : c.Clear) (hr : Represents c.ipc r)
    {bytes : List UInt8} (hs : (r.feed ipcFormat bytes.dropLast).2 = []) (turns : Nat) :
    let last := Machine.run step c (bytes.map .receivedByte ++ List.replicate turns .execute)
    Represents last.ipc (r.feed ipcFormat bytes).1 ∧
      delivered last.log ++ last.awaiting.map delivery =
        delivered c.log ++ (r.feed ipcFormat bytes).2.map delivery := by
  intro last
  obtain ⟨hfits, hspares⟩ := h.meets_bytes hr hs
  have hrun := run_delivery hsaved hr
    ((Machine.meets_append _ _ _).mpr ⟨hfits, (meets_executes _ turns).1⟩)
    ((Machine.meets_append _ _ _).mpr ⟨hspares, (meets_executes _ turns).2⟩)
  rw [receivedBytes_executes, h.awaiting, List.map_nil, List.append_nil] at hrun
  exact hrun

end Controller

structure AtRest (fw : Firmware (SchedulerParams Handler)) : Prop where
  sound : Sound fw
  clear : fw.controller.Clear
  idle : Represents fw.ipc (.hunting false)

theorem start_atRest : AtRest start where
  sound := start_sound
  clear := by
    rw [start_related.2]
    constructor
    · intro t ht
      rw [List.mem_singleton.mp ht]
      rfl
    · decide
  idle := ⟨rfl, rfl⟩

/-- A chunk of bytes with at most one packet, at its end, and the queue drained after it. -/
theorem chunk_drained {fw : Firmware (SchedulerParams Handler)} {r : Receiver} (hsound : Sound fw)
    (hclear : fw.controller.Clear) (hr : Represents fw.ipc r) {bytes : List UInt8}
    (hs : (r.feed ipcFormat bytes.dropLast).2 = []) :
    ∃ last, (feedBytes fw bytes).schedulerExecute (3 * schedulerMaxQueueSize) = some last ∧
      Sound last ∧ last.controller.Clear ∧ Represents last.ipc (r.feed ipcFormat bytes).1 ∧
      delivered last.log = delivered fw.log ++ (r.feed ipcFormat bytes).2.map delivery := by
  obtain ⟨hdrain, hempty⟩ := schedulerExecute_drains (feedBytes_sound hsound bytes).1
  rw [feedBytes, ← Machine.run_append] at hdrain hempty
  obtain ⟨hlast, hcontroller⟩ := run_sound hsound
    (bytes.map .receivedByte ++ List.replicate (3 * schedulerMaxQueueSize) .execute)
  obtain ⟨hrep, hdelivered⟩ := Controller.chunk_delivery hsound.saved hclear hr hs
    (3 * schedulerMaxQueueSize)
  rw [← hcontroller] at hrep hdelivered
  have hrest := Controller.clear_of_empty hempty
  rw [hrest.awaiting, List.map_nil, List.append_nil] at hdelivered
  exact ⟨_, hdrain, hlast, hrest, hrep, hdelivered⟩

/-- The header, the length of some payload, the payload and any checksum byte. -/
def framed (payload : List UInt8) (crc : UInt8) : List UInt8 :=
  headerParamLsb :: headerParamMsb :: UInt8.ofNat payload.length :: (payload ++ [crc])

section Framed
variable {payload : List UInt8} (hadmits : ipcFormat.Admits payload) (crc : UInt8)
include hadmits

theorem framed_feed :
    (Receiver.hunting false).feed ipcFormat (framed payload crc) =
      (.hunting false, [⟨payload, crc⟩]) :=
  Receiver.feed_packet hadmits crc

/-- Its last byte is what completes it. -/
theorem framed_init :
    ((Receiver.hunting false).feed ipcFormat (framed payload crc).dropLast).2 = [] := by
  have hlast : (framed payload crc).dropLast = ipcFormat.lsb :: ipcFormat.msb ::
      UInt8.ofNat payload.length :: payload := by
    rw [framed, ← List.cons_append, ← List.cons_append, ← List.cons_append, List.dropLast_concat]
    rfl
  rw [hlast, Receiver.feed_frame_init hadmits]

/-- It is delivered with its payload, and with the status of its checksum byte. -/
theorem framed_drained {fw : Firmware (SchedulerParams Handler)} (hsound : Sound fw)
    (hclear : fw.controller.Clear) (hr : Represents fw.ipc (.hunting false)) :
    ∃ last,
      (feedBytes fw (framed payload crc)).schedulerExecute (3 * schedulerMaxQueueSize) = some last ∧
        delivered last.log = delivered fw.log ++ [delivery ⟨payload, crc⟩] := by
  obtain ⟨last, hlast, _, _, _, hdelivered⟩ :=
    chunk_drained hsound hclear hr (framed_init hadmits crc)
  rw [framed_feed hadmits crc] at hdelivered
  exact ⟨last, hlast, hdelivered⟩

end Framed

/-- One transfer: its payload is delivered, and the queue is drained. -/
theorem transfer_delivery {fw : Firmware (SchedulerParams Handler)} (h : AtRest fw)
    {t : Transfer} (ht : t.Valid) :
    ∃ last, (feedBytes fw t.bytes).schedulerExecute (3 * schedulerMaxQueueSize) = some last ∧
      AtRest last ∧ delivered last.log = delivered fw.log ++ [(.ok, t.payload)] := by
  have hbytes : t.bytes = t.filler ++ ipcFormat.frame t.payload := by
    rw [Transfer.bytes, send_frame t.sender ht.1]
  have hfeed : (Receiver.hunting false).feed ipcFormat t.bytes =
      (.hunting false, [ipcFormat.packet t.payload]) := by
    rw [hbytes, Receiver.feed_append, Receiver.feed_filler ipcFormat ht.2, Receiver.feed_frame ht.1]
    rfl
  have hinit : ((Receiver.hunting false).feed ipcFormat t.bytes.dropLast).2 = [] := by
    have hlast : t.bytes.dropLast = t.filler ++ (ipcFormat.lsb :: ipcFormat.msb ::
        UInt8.ofNat t.payload.length :: t.payload) := by
      rw [hbytes, Format.frame, ← List.cons_append, ← List.cons_append, ← List.cons_append,
        ← List.append_assoc, List.dropLast_concat]
    rw [hlast, Receiver.feed_append, Receiver.feed_filler ipcFormat ht.2,
      Receiver.feed_frame_init ht.1]
    rfl
  obtain ⟨last, hdrain, hsound, hclear, hidle, hdelivered⟩ :=
    chunk_drained h.sound h.clear h.idle hinit
  rw [hfeed] at hidle hdelivered
  refine ⟨last, hdrain, ⟨hsound, hclear, hidle⟩, ?_⟩
  rw [← delivery_packet]
  exact hdelivered

private theorem exchange_delivery {fw : Firmware (SchedulerParams Handler)} (h : AtRest fw)
    {transfers : List Transfer} (ht : ∀ t ∈ transfers, t.Valid) :
    ∃ last, exchange fw transfers = some last ∧ AtRest last ∧
      delivered last.log = delivered fw.log ++ transfers.map fun t => (.ok, t.payload) := by
  induction transfers generalizing fw with
  | nil => exact ⟨fw, rfl, h, (List.append_nil _).symm⟩
  | cons t rest ih =>
    rw [List.forall_mem_cons] at ht
    obtain ⟨next, hnext, hrest, hone⟩ := transfer_delivery h ht.1
    obtain ⟨last, hlast, hatRest, hmany⟩ := ih hrest ht.2
    refine ⟨last, ?_, hatRest, ?_⟩
    · rw [exchange, hnext]
      exact hlast
    · rw [hmany, hone, List.append_assoc, List.map_cons, List.singleton_append]

private theorem filler_delivery {fw : Firmware (SchedulerParams Handler)} (h : AtRest fw)
    {filler : List UInt8} (hfiller : headerParamLsb ∉ filler) :
    Represents (feedBytes fw filler).ipc (.hunting false) ∧
      delivered (feedBytes fw filler).log = delivered fw.log := by
  have hinit : ((Receiver.hunting false).feed ipcFormat filler.dropLast).2 = [] := by
    rw [Receiver.feed_filler ipcFormat fun hmem => hfiller ((List.dropLast_subset _) hmem)]
  obtain ⟨_, hcontroller⟩ := run_sound h.sound (filler.map .receivedByte)
  obtain ⟨hidle, _⟩ := Controller.chunk_delivery h.sound.saved h.clear h.idle hinit 0
  rw [List.replicate_zero, List.append_nil, ← hcontroller,
    Receiver.feed_filler ipcFormat hfiller] at hidle
  have hlog : (feedBytes fw filler).controller.log = fw.controller.log := by
    rw [feedBytes, hcontroller, Controller.run_bytes_log]
  exact ⟨hidle, congrArg delivered hlog⟩

/-- Both directions. Payloads framed by either sender, with filler before, between and
after the frames, are delivered in order with status OK, and leave the parser idle with
its parameters zero; and the firmware's frames are received by the commander call by call. -/
theorem framing_round_trip (transfers : List Transfer) (ht : ∀ t ∈ transfers, t.Valid)
    (filler : List UInt8) (hfiller : headerParamLsb ∉ filler) :
    (∃ fw, exchange start transfers = some fw ∧
      let last := feedBytes fw filler
      delivered last.log = transfers.map (fun t => (.ok, t.payload)) ∧
      last.ipc.ipcStateMachineState = .idle ∧ last.ipc.ipcStateMachineParams = ⟨0, 0, 0⟩) ∧
    Commander.receiveDataPackets transfers.length
        (transfers.flatMap fun t => Sender.firmware.send t.payload) =
      some (transfers.map fun t => some t.payload, []) := by
  constructor
  · obtain ⟨fw, hfw, hrest, hdelivered⟩ := exchange_delivery start_atRest ht
    obtain ⟨hidle, hlog⟩ := filler_delivery hrest hfiller
    exact ⟨fw, hfw, hlog.trans hdelivered, hidle.1, hidle.2⟩
  · have hframes : (transfers.flatMap fun t => Sender.firmware.send t.payload) =
        (transfers.map Transfer.payload).flatMap ipcFormat.frame := by
      rw [List.flatMap_map]
      exact List.flatMap_congr fun t h => send_frame .firmware (ht t h).1
    have hpayloads : ∀ p ∈ transfers.map Transfer.payload, ipcFormat.Admits p := by
      intro p hp
      obtain ⟨t, h, rfl⟩ := List.mem_map.mp hp
      exact (ht t h).1
    have hreceived := Commander.receiveDataPackets_frames hpayloads
    rw [List.length_map, List.map_map] at hreceived
    rw [hframes, hreceived]
    rfl

def imitations : List Transfer :=
  [⟨[0x5A, 0], .commander, [0xA5, 0x5A, 1, 7, 7]⟩, ⟨[], .firmware, [0xA5]⟩]

theorem framing_round_trip_imitations :
    (∃ fw, exchange start imitations = some fw ∧
      let last := feedBytes fw [0x5A]
      delivered last.log = imitations.map (fun t => (.ok, t.payload)) ∧
      last.ipc.ipcStateMachineState = .idle ∧ last.ipc.ipcStateMachineParams = ⟨0, 0, 0⟩) ∧
    Commander.receiveDataPackets 2
        (imitations.flatMap fun t => Sender.firmware.send t.payload) =
      some (imitations.map fun t => some t.payload, []) :=
  framing_round_trip imitations (by decide) [0x5A] (by decide)

end ClosedLoopStepper.Device
