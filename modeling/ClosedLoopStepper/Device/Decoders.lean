import ClosedLoopStepper.Device.RoundTrip
import ClosedLoopStepper.Device.StaleBytes

/-! The two decoders on the same frame. The commander reads it call by call; the firmware
takes it byte by byte, and checks it once the queue is drained. -/
namespace ClosedLoopStepper.Device
open Foundations Foundations.Framing Common Scheduler Ipc

structure Idling (fw : Firmware (SchedulerParams Handler)) : Prop where
  sound : Sound fw
  clear : fw.controller.Clear
  represents : ∃ r, Represents fw.ipc r
  idle : fw.ipc.ipcStateMachineState = .idle

/-- Fed the frame and drained, the firmware calls its packet handler for this frame, with
status OK and these bytes. Bytes after a refused length are parsed as any other bytes; what
is found inside them is not this frame. -/
def Calls (fw : Firmware (SchedulerParams Handler)) (payload : List UInt8) (crc : UInt8)
    (p : List UInt8) : Prop :=
  p = payload ∧ ∃ last,
    (feedBytes fw (framed payload crc)).schedulerExecute (3 * schedulerMaxQueueSize) = some last ∧
      (.ok, p) ∈ (delivered last.log).drop (delivered fw.log).length

/-- The commander returns a payload for the bytes exactly if the firmware calls its packet
handler with it. -/
def DecodersAgree (fw : Firmware (SchedulerParams Handler)) (payload : List UInt8) (crc : UInt8)
    (rest : List UInt8) : Prop :=
  ∀ p, (∃ port, Commander.receiveDataPacket (framed payload crc ++ rest) = some (some p, port)) ↔
    Calls fw payload crc p

private theorem receiveDataPacket_framed_iff {payload : List UInt8} (hlength : payload.length < 256)
    (crc : UInt8) (rest p : List UInt8) :
    (∃ port, Commander.receiveDataPacket (framed payload crc ++ rest) = some (some p, port)) ↔
      p = payload ∧ payload.length ≤ ipcPacketMaxDataLength ∧ dataPacketCrc payload = crc := by
  have hcrc : Commander.calculateCrc payload = dataPacketCrc payload := rfl
  have hmax : Commander.ipcPacketMaxDataLength = ipcPacketMaxDataLength := rfl
  have hbytes : framed payload crc ++ rest = ipcFormat.lsb :: ipcFormat.msb ::
      UInt8.ofNat payload.length :: (payload ++ crc :: rest) := by
    rw [framed, List.cons_append, List.cons_append, List.cons_append, List.append_assoc,
      List.singleton_append]
    rfl
  rw [hbytes, Commander.receiveDataPacket_bytes hlength, hcrc, hmax]
  constructor
  · rintro ⟨port, hport⟩
    split_ifs at hport with hlong hcheck
    · cases hport
    · cases hport
      exact ⟨rfl, Nat.not_lt.mp hlong, hcheck.symm⟩
    · cases hport
  · rintro ⟨rfl, hshort, hcheck⟩
    rw [if_neg (Nat.not_lt.mpr hshort), if_pos hcheck.symm]
    exact ⟨rest, rfl⟩

namespace Controller
variable {c : Controller} {r : Receiver} {n : Nat} {log : List Output}

/-- Every packet that waits is shorter than `n`, and so is every packet given to the
application since the log was this one. -/
structure Shorter (n : Nat) (log : List Output) (c : Controller) : Prop where
  saved : c.Saved
  pending : ∀ params, .postProcessing params ∈ c.tasks → params.receivedDataSize.toNat < n
  given : ∃ added, delivered c.log = delivered log ++ added ∧ ∀ d ∈ added, d.2.length < n

private theorem Clear.shorter (h : c.Clear) (hsaved : c.Saved) (n : Nat) : Shorter n c.log c where
  saved := hsaved
  pending params hmem := by cases h.no_packet _ hmem
  given := ⟨[], (List.append_nil _).symm, fun d hd => by cases hd⟩

private theorem receiveByte_shorter (h : Shorter n log c) (hr : Represents c.ipc r) {b : UInt8}
    (hb : ∀ packet ∈ (r.step ipcFormat b).2, packet.payload.length < n) :
    Shorter n log (c.receiveByte b) := by
  refine ⟨h.saved, fun params hmem => ?_, h.given⟩
  rcases receiveByte_packets hr hmem with hold | ⟨packet, hpacket, _, hsize⟩
  · exact h.pending params hold
  · rw [hsize]
    exact hb packet hpacket

private theorem run_bytes_shorter (h : Shorter n log c) (hr : Represents c.ipc r)
    {bytes : List UInt8}
    (hbytes : ∀ packet ∈ (r.feed ipcFormat bytes).2, packet.payload.length < n) :
    Shorter n log (Machine.run step c (bytes.map .receivedByte)) := by
  induction bytes generalizing c r with
  | nil => exact h
  | cons b rest ih =>
    rw [Receiver.feed_cons, List.forall_mem_append] at hbytes
    have hnext := receiveByte_shorter h hr fun packet hp => hbytes.1 packet (Option.mem_toList.mpr hp)
    exact ih hnext (Ipc.step_follows hr b).1 hbytes.2

private theorem execute_shorter (h : Shorter n log c) : Shorter n log c.execute := by
  refine ⟨step_saved h.saved .execute, fun params hmem =>
    h.pending params (execute_packets h.saved hmem), ?_⟩
  obtain ⟨added, hadded, hshort⟩ := h.given
  rcases execute_cases h.saved with ⟨_, he⟩ | ⟨params, rest, ht, he⟩ | ⟨eventData, rest, _, hturn⟩
  · rw [he]
    exact ⟨added, hadded, hshort⟩
  · have hlength : (c.ipc.received params.receivedDataSize.toNat).length < n := by
      rw [IpcComponent.received, List.length_map, List.length_range]
      exact h.pending params (by rw [ht]; exact List.mem_cons_self)
    rw [he, runPostProcessing_eq ht]
    dsimp only
    rw [delivered_append, hadded, List.append_assoc]
    refine ⟨_, rfl, List.forall_mem_append.mpr ⟨hshort, fun d hd => ?_⟩⟩
    rw [List.mem_singleton.mp hd]
    exact hlength
  · rw [(turn_delivery hturn).1]
    exact ⟨added, hadded, hshort⟩

private theorem run_executes_shorter (h : Shorter n log c) (turns : Nat) :
    Shorter n log (Machine.run step c (List.replicate turns .execute)) :=
  Machine.run_replicate_invariant turns h fun _ hc => execute_shorter hc

end Controller

section Frame
variable {fw : Firmware (SchedulerParams Handler)} {payload : List UInt8} {crc : UInt8}

private theorem not_calls {r : Receiver} (h : Idling fw) (hr : Represents fw.ipc r)
    (hshort : ∀ packet ∈ (r.feed ipcFormat (framed payload crc)).2,
      packet.payload.length < payload.length) (p : List UInt8) : ¬ Calls fw payload crc p := by
  rintro ⟨rfl, last, hlast, hmem⟩
  obtain ⟨hsound, hfed⟩ := feedBytes_sound h.sound (framed p crc)
  have hrun := (run_sound hsound (List.replicate (3 * schedulerMaxQueueSize) .execute)).2
  rw [(schedulerExecute_drains hsound).1, Option.some.injEq] at hlast
  rw [hlast, hfed] at hrun
  have hshorter := Controller.run_executes_shorter (Controller.run_bytes_shorter
    (h.clear.shorter h.sound.saved p.length) hr hshort) (3 * schedulerMaxQueueSize)
  rw [← hrun] at hshorter
  obtain ⟨added, hadded, hlengths⟩ := hshorter.given
  change delivered last.log = delivered fw.log ++ added at hadded
  rw [hadded, List.drop_left] at hmem
  exact Nat.lt_irrefl _ (hlengths _ hmem)

private theorem shorter_after {r : Receiver} {front back : List UInt8}
    (hfront : r.feed ipcFormat front = (.hunting false, []))
    (hback : back.length < payload.length + 4) :
    ∀ packet ∈ (r.feed ipcFormat (front ++ back)).2, packet.payload.length < payload.length := by
  intro packet hpacket
  rw [Receiver.feed_append, hfront, List.nil_append] at hpacket
  have hcount := Receiver.feed_counted hpacket
  rw [Receiver.held, if_neg Bool.false_ne_true] at hcount
  omega

/-- A header that starts while its second byte is looked for is missed. -/
theorem missed_header :
    (Receiver.hunting true).feed ipcFormat [headerParamLsb, headerParamMsb] =
      (.hunting false, []) := by
  decide

/-- A frame of an admitted length that the parser takes from its start is delivered with the
status of its checksum. -/
theorem calls_admitted (h : Idling fw) (hr : Represents fw.ipc (.hunting false))
    (hadmits : ipcFormat.Admits payload) (p : List UInt8) :
    Calls fw payload crc p ↔ p = payload ∧ dataPacketCrc payload = crc := by
  obtain ⟨last, hdrain, hdelivered⟩ := framed_drained hadmits crc h.sound h.clear hr
  have hdrop : (delivered last.log).drop (delivered fw.log).length = [delivery ⟨payload, crc⟩] := by
    rw [hdelivered, List.drop_left]
  rw [Calls, hdrain]
  constructor
  · rintro ⟨rfl, last', hlast', hmem⟩
    rw [← Option.some.inj hlast', hdrop, List.mem_singleton, delivery] at hmem
    refine ⟨rfl, ?_⟩
    by_contra hcrc
    rw [if_neg hcrc] at hmem
    cases hmem
  · rintro ⟨rfl, hcrc⟩
    refine ⟨rfl, last, rfl, ?_⟩
    rw [hdrop, delivery, if_pos hcrc]
    exact List.mem_singleton_self _

/-- The firmware's condition on a frame. -/
theorem calls_iff (h : Idling fw) (hlength : payload.length < 256) (p : List UInt8) :
    Calls fw payload crc p ↔
      p = payload ∧ (0 < payload.length ∧ payload.length ≤ ipcPacketMaxDataLength) ∧
        dataPacketCrc payload = crc ∧ fw.ipc.ipcStateMachineParams.currentHeaderParamIndex = 0 := by
  obtain ⟨r, hr⟩ := h.represents
  obtain ⟨half, rfl⟩ := hunting_of_idle hr h.idle
  by_cases hindex : fw.ipc.ipcStateMachineParams.currentHeaderParamIndex = 0
  · have hhalf := not_half_of_index hr hindex
    subst hhalf
    by_cases hadmits : ipcFormat.Admits payload
    · rw [calls_admitted h hr hadmits]
      exact ⟨fun ⟨hp, hcrc⟩ => ⟨hp, hadmits, hcrc, hindex⟩, fun ⟨hp, _, hcrc, _⟩ => ⟨hp, hcrc⟩⟩
    · have hbyte : ¬ (0 < (UInt8.ofNat payload.length).toNat ∧
          (UInt8.ofNat payload.length).toNat ≤ ipcFormat.maxLength) := by
        rw [UInt8.toNat_ofNat', Nat.mod_eq_of_lt hlength]
        exact hadmits
      have hback : (payload ++ [crc]).length < payload.length + 4 := by simp
      have hshort := shorter_after (Receiver.feed_length_refused hbyte) hback
      exact iff_of_false (not_calls h hr hshort p) fun hall => hadmits hall.2.1
  · have hhalf : half = true := by
      cases half with
      | true => rfl
      | false => exact absurd (congrArg IpcStateMachineParams.currentHeaderParamIndex hr.2) hindex
    subst hhalf
    have hback : (UInt8.ofNat payload.length :: (payload ++ [crc])).length < payload.length + 4 := by
      simp
    have hshort := shorter_after missed_header hback
    exact iff_of_false (not_calls h hr hshort p) fun hall => hindex hall.2.2.2

end Frame

/-- The decoders agree on a frame unless the commander accepts it although it is empty, or
although the firmware has a first header byte pending. -/
theorem decoders_agree_iff {fw : Firmware (SchedulerParams Handler)} (h : Idling fw)
    (payload : List UInt8) (hlength : payload.length < 256) (crc : UInt8) (rest : List UInt8) :
    DecodersAgree fw payload crc rest ↔
      (payload.length ≤ 251 ∧ dataPacketCrc payload = crc →
        payload ≠ [] ∧ fw.ipc.ipcStateMachineParams.currentHeaderParamIndex = 0) := by
  constructor
  · rintro hagree ⟨hshort, hcrc⟩
    have hreceived := (receiveDataPacket_framed_iff hlength crc rest payload).mpr
      ⟨rfl, hshort, hcrc⟩
    obtain ⟨_, hadmits, _, hindex⟩ := (calls_iff h hlength payload).mp ((hagree payload).mp hreceived)
    exact ⟨List.length_pos_iff.mp hadmits.1, hindex⟩
  · intro hcond p
    rw [receiveDataPacket_framed_iff hlength, calls_iff h hlength]
    constructor
    · rintro ⟨hp, hshort, hcrc⟩
      obtain ⟨hne, hindex⟩ := hcond ⟨hshort, hcrc⟩
      exact ⟨hp, ⟨List.length_pos_iff.mpr hne, hshort⟩, hcrc, hindex⟩
    · rintro ⟨hp, hadmits, hcrc, _⟩
      exact ⟨hp, hadmits.2, hcrc⟩

private theorem start_idling : Idling start where
  sound := start_sound
  clear := start_atRest.clear
  represents := ⟨_, start_atRest.idle⟩
  idle := rfl

theorem decoders_agree_two_bytes : DecodersAgree start [0xA5, 0x5A] 0xFF [1, 2] :=
  (decoders_agree_iff start_idling [0xA5, 0x5A] (by decide) 0xFF [1, 2]).mpr (by decide)

/-- The commander returns an empty payload for a frame of length zero; the firmware refuses
the length. -/
theorem empty_frame_returned :
    ¬ DecodersAgree start [] 0 [] ∧
      Commander.receiveDataPacket [0xA5, 0x5A, 0, 0] = some (some [], []) ∧
      ((feedBytes start [0xA5, 0x5A, 0, 0]).schedulerExecute (3 * schedulerMaxQueueSize)).map
        (fun last => delivered last.log) = some [] := by
  refine ⟨fun hagree => ?_, by decide, by decide⟩
  obtain ⟨_, last, hlast, hmem⟩ := (hagree []).mp ⟨[], by decide⟩
  have hnone : ((feedBytes start (framed [] 0)).schedulerExecute
      (3 * schedulerMaxQueueSize)).map (fun last => delivered last.log) = some [] := by decide
  rw [hlast, Option.map_some, Option.some.injEq] at hnone
  rw [hnone, List.drop_nil] at hmem
  cases hmem

end ClosedLoopStepper.Device
