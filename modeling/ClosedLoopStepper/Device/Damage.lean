import ClosedLoopStepper.Device.RoundTrip
import ClosedLoopStepper.Foundations.Parity

/-! Frames that are damaged behind their header. The receiver takes whatever payload and
checksum byte arrive, and the deferred check tells exactly the damage whose own parity is
zero from no damage at all; what it refuses never becomes a command. -/
namespace ClosedLoopStepper.Device
open Foundations Foundations.Framing Foundations.Parity Scheduler Ipc Application

private theorem xor_selfInverse : SelfInverse (fun a b : UInt8 => a ^^^ b) 0 where
  assoc := UInt8.xor_assoc
  comm := UInt8.xor_comm
  zero_op _ := UInt8.zero_xor
  self _ := UInt8.xor_self

def bytesParity (bytes : List UInt8) : UInt8 := parity (fun a b => a ^^^ b) 0 bytes

/-- The differences between the bytes sent and those received in their place. -/
def bytesDifference (sent received : List UInt8) : List UInt8 :=
  difference (fun a b => a ^^^ b) sent received

/-- The bytes behind the length of a frame are the payload and its checksum, which have
parity zero; the packet made of others is accepted when their difference has it too. -/
theorem accepted_iff {payload received : List UInt8} (hlength : payload.length = received.length)
    (check : UInt8) :
    (delivery ⟨received, check⟩).1 = .ok ↔
      bytesParity (bytesDifference (payload ++ [dataPacketCrc payload])
        (received ++ [check])) = 0 := by
  have hsent : bytesParity (payload ++ [dataPacketCrc payload]) = 0 :=
    (xor_selfInverse.parity_check payload _).mpr rfl
  have hboth : (payload ++ [dataPacketCrc payload]).length = (received ++ [check]).length := by
    rw [List.length_append, List.length_append, hlength]
    rfl
  have hreceived : bytesParity (received ++ [check]) =
      bytesParity (bytesDifference (payload ++ [dataPacketCrc payload]) (received ++ [check])) :=
    xor_selfInverse.parity_received hboth hsent
  rw [delivery_ok_iff, ← hreceived]
  exact (xor_selfInverse.parity_check received check).symm

def Task.isCommand : Task → Bool
  | .postProcessing _ => false
  | .stateMachine eventData => eventData.type = .processCmdRequest

def pendingCommands (tasks : List Task) : List Task := tasks.filter Task.isCommand

namespace Controller
variable {c : Controller}

private theorem receiveByte_commands (c : Controller) (b : UInt8) :
    pendingCommands (c.receiveByte b).tasks = pendingCommands c.tasks := by
  rcases c.receiveByte_tasks b with h | ⟨params, h⟩
  · rw [h]
  · rw [h, pendingCommands, List.filter_append]
    exact List.append_nil _

private theorem run_bytes_commands (c : Controller) (bytes : List UInt8) :
    pendingCommands (Machine.run step c (bytes.map .receivedByte)).tasks =
      pendingCommands c.tasks := by
  induction bytes generalizing c with
  | nil => rfl
  | cons b rest ih => exact (ih (c.receiveByte b)).trans (receiveByte_commands c b)

/-- Every packet that waits will be refused, and no command is pending that was not before. -/
structure Rejecting (before : List Task) (c : Controller) : Prop where
  saved : c.Saved
  corrupted : ∀ packet ∈ c.awaiting, (delivery packet).1 = .packetCorrupted
  commands : pendingCommands c.tasks <:+ before

private theorem turn_commands {eventData : UserApplicationStateMachineEventData} {rest : List Task}
    {next : Controller} (h : Turn c eventData rest next) :
    pendingCommands next.tasks = pendingCommands rest := by
  rcases h.tasks with htasks | htasks
  · rw [htasks]
  · rw [htasks, pendingCommands, List.filter_append]
    exact List.append_nil _

private theorem pendingCommands_tail (t : Task) (rest : List Task) :
    pendingCommands rest <:+ pendingCommands (t :: rest) := by
  rw [pendingCommands, pendingCommands, List.filter_cons]
  split
  · exact List.suffix_cons _ _
  · exact List.suffix_refl _

theorem Rejecting.execute {before : List Task} (h : Rejecting before c) :
    Rejecting before c.execute := by
  have hsaved : c.execute.Saved := step_saved h.saved .execute
  rcases execute_cases h.saved with ⟨_, he⟩ | ⟨params, rest, ht, he⟩ | ⟨eventData, rest, ht, hturn⟩
  · rw [he]
    exact h
  · have hpackets := h.corrupted
    rw [awaiting_postProcessing ht, List.forall_mem_cons] at hpackets
    have hcommands := h.commands
    rw [ht] at hcommands
    refine ⟨hsaved, ?_, ?_⟩
    · rw [he, runPostProcessing_awaiting ht]
      exact hpackets.2
    · -- the status that the handler is called with is that of the waiting packet
      have hstatus : (ipcReceivedDataPacketPostProcessingHandler c.ipc params).receptionStatus =
          .packetCorrupted := hpackets.1
      have htasks : (c.runPostProcessing params).tasks = rest := by
        rw [runPostProcessing_eq ht, hstatus]
        simp
      rw [he, htasks]
      exact (pendingCommands_tail _ rest).trans hcommands
  · obtain ⟨_, hawaiting⟩ := turn_delivery hturn
    have hcommands := h.commands
    rw [ht] at hcommands
    refine ⟨hsaved, ?_, ?_⟩
    · rw [hawaiting, ← awaiting_stateMachine ht]
      exact h.corrupted
    · rw [turn_commands hturn]
      exact (pendingCommands_tail _ rest).trans hcommands

private theorem Clear.rejecting (hsaved : c.Saved) (h : c.Clear) {r : Receiver}
    (hr : Represents c.ipc r)
    {bytes : List UInt8} (hs : (r.feed ipcFormat bytes.dropLast).2 = []) {packet : Packet}
    (hfed : (r.feed ipcFormat bytes).2 = [packet])
    (hstatus : (delivery packet).1 = .packetCorrupted) :
    Rejecting (pendingCommands c.tasks) (Machine.run step c (bytes.map .receivedByte)) where
  saved := Machine.run_invariant _ hsaved fun _ i hc => step_saved hc i
  corrupted := by
    obtain ⟨_, hdelivered⟩ := chunk_delivery hsaved h hr hs 0
    rw [List.replicate_zero, List.append_nil, run_bytes_log, hfed,
      List.append_cancel_left_eq] at hdelivered
    intro waiting hin
    have hdelivery := List.mem_map_of_mem (f := delivery) hin
    rw [hdelivered, List.map_singleton, List.mem_singleton] at hdelivery
    rw [hdelivery]
    exact hstatus
  commands := by
    have hsame := run_bytes_commands c bytes
    exact hsame ▸ List.suffix_refl _

end Controller

/-- A corrupted packet leaves no command behind, at any turn of the loop after it. -/
theorem rejected_commands {fw : Firmware (SchedulerParams Handler)} (h : AtRest fw)
    {payload : List UInt8} (hadmits : ipcFormat.Admits payload) {crc : UInt8}
    (hstatus : (delivery ⟨payload, crc⟩).1 = .packetCorrupted) (turns : Nat) :
    pendingCommands (Machine.run Firmware.step (feedBytes fw (framed payload crc))
      (List.replicate turns .execute)).controller.tasks <:+
        pendingCommands fw.controller.tasks := by
  obtain ⟨hfed, hcontroller⟩ := feedBytes_sound h.sound (framed payload crc)
  have hstart := h.clear.rejecting h.sound.saved h.idle (framed_init hadmits crc)
    (congrArg Prod.snd (framed_feed hadmits crc)) hstatus
  rw [(run_sound hfed _).2, hcontroller]
  exact (Machine.run_replicate_invariant turns hstart fun _ hc => hc.execute).commands

/-- Whatever bytes arrive in place of a frame's payload and checksum, exactly one packet is
delivered, with these bytes. It is accepted when the differences have parity zero, which a
single byte that differs never has, and otherwise the state machine gets no command of it. -/
theorem damage_detected {fw : Firmware (SchedulerParams Handler)} (h : AtRest fw)
    (sender : Sender) {payload : List UInt8} (hpayload : ipcFormat.Admits payload)
    {altered : List UInt8} (hlength : altered.length = payload.length + 1) :
    let sent := sender.send payload
    let fed := feedBytes fw (sent.take 3 ++ altered)
    ∃ last status, fed.schedulerExecute (3 * schedulerMaxQueueSize) = some last ∧
      delivered last.log = delivered fw.log ++ [(status, altered.dropLast)] ∧
      (status = .ok ↔ bytesParity (bytesDifference (sent.drop 3) altered) = 0) ∧
      (DifferInOne (sent.drop 3) altered → status = .packetCorrupted) ∧
      (status = .packetCorrupted → ∀ turns,
        pendingCommands (Machine.run Firmware.step fed
          (List.replicate turns .execute)).controller.tasks <:+
            pendingCommands fw.controller.tasks) := by
  intro sent fed
  have hsent : sent = ipcFormat.frame payload := send_frame sender hpayload
  obtain ⟨received, check, rfl⟩ : ∃ received check, altered = received ++ [check] := by
    rcases List.eq_nil_or_concat' altered with rfl | hconcat
    · cases hlength
    · exact hconcat
  have hreceived : payload.length = received.length := by
    rw [List.length_append, List.length_singleton] at hlength
    omega
  have hadmits : ipcFormat.Admits received := by
    rw [Format.Admits, ← hreceived]
    exact hpayload
  have hbytes : sent.take 3 ++ (received ++ [check]) = framed received check := by
    rw [hsent, framed, ← hreceived]
    rfl
  have hdrop : sent.drop 3 = payload ++ [dataPacketCrc payload] := by
    rw [hsent]
    rfl
  obtain ⟨last, hlast, hdelivered⟩ := framed_drained hadmits check h.sound h.clear h.idle
  have haccepted := accepted_iff hreceived check
  simp only [fed]
  rw [hdrop, hbytes, List.dropLast_concat]
  refine ⟨last, (delivery ⟨received, check⟩).1, hlast, hdelivered, haccepted, ?_, ?_⟩
  · intro hone
    have hdamage := xor_selfInverse.parity_differInOne hone
    cases hstatus : (delivery ⟨received, check⟩).1 with
    | ok => exact absurd (haccepted.mp hstatus) hdamage
    | packetCorrupted => rfl
  · intro hstatus turns
    exact rejected_commands h hadmits hstatus turns

/-- The angle of a command damaged in one byte. -/
theorem damage_detected_angle :
    let sent := Sender.commander.send [0, 90, 0]
    let altered : List UInt8 := [0, 91, 0, 90]
    let fed := feedBytes start (sent.take 3 ++ altered)
    ∃ last status, fed.schedulerExecute (3 * schedulerMaxQueueSize) = some last ∧
      delivered last.log = delivered start.log ++ [(status, altered.dropLast)] ∧
      (status = .ok ↔ bytesParity (bytesDifference (sent.drop 3) altered) = 0) ∧
      (DifferInOne (sent.drop 3) altered → status = .packetCorrupted) ∧
      (status = .packetCorrupted → ∀ turns,
        pendingCommands (Machine.run Firmware.step fed
          (List.replicate turns .execute)).controller.tasks <:+
            pendingCommands start.controller.tasks) :=
  damage_detected start_atRest .commander (by decide) (by decide)

end ClosedLoopStepper.Device
