import ClosedLoopStepper.Common.Memory
import ClosedLoopStepper.Foundations.Framing
import ClosedLoopStepper.Ipc.Ipc

/-! The two directions against one frame format. What is sent is a frame, and the receive
state machine refines the framing receiver: its three parameters and the first bytes of
its buffer hold what the framing receiver has accumulated. -/
namespace ClosedLoopStepper.Ipc
open Common Foundations Foundations.Framing
variable {H : Type}

def ipcFormat : Format where
  lsb := headerParamLsb
  msb := headerParamMsb
  maxLength := ipcPacketMaxDataLength
  checksum := dataPacketCrc
  maxLength_lt := by decide

/-- A payload of an admitted length is sent as its frame. -/
theorem ipcSendDataPacket_frame {payload : List UInt8} (h : ipcFormat.Admits payload) :
    ipcSendDataPacket (some (pointer payload)) (UInt8.ofNat payload.length) =
      (.ok, ipcFormat.frame payload) := by
  have hlength := Receiver.length_toNat h
  have hbounds : 0 < payload.length ∧ payload.length ≤ ipcPacketMaxDataLength := h
  simp only [ipcSendDataPacket, hlength, if_pos hbounds, pointer_read]
  rfl

def postProcessingParams (packet : Packet) : IpcReceivedDataPacketPostProcessingParams :=
  ⟨UInt8.ofNat packet.payload.length, packet.check⟩

/-- Which state of the framing receiver the static variables stand for. -/
def Represents (ipc : IpcComponent H) : Receiver → Prop
  | .hunting half =>
    ipc.ipcStateMachineState = .idle ∧
      ipc.ipcStateMachineParams = ⟨if half then 1 else 0, 0, 0⟩
  | .length => ipc.ipcStateMachineState = .getDataLength ∧ ipc.ipcStateMachineParams = ⟨0, 0, 0⟩
  | .data expected payload =>
    ipc.ipcStateMachineState = .getData ∧
      ipc.ipcStateMachineParams = ⟨0, UInt8.ofNat payload.length, UInt8.ofNat expected⟩ ∧
      payload.length < expected ∧ expected ≤ ipcPacketMaxDataLength ∧
      ipc.received payload.length = payload
  | .check payload =>
    ipc.ipcStateMachineState = .getDataCrc ∧
      ipc.ipcStateMachineParams = ⟨0, 0, UInt8.ofNat payload.length⟩ ∧
      ipcFormat.Admits payload ∧ ipc.received payload.length = payload

def IpcComponent.writeOffset (ipc : IpcComponent H) : Option Nat :=
  if ipc.ipcStateMachineState = .getData then
    some ipc.ipcStateMachineParams.currentDataOffset.toNat
  else none

section Frame
variable (ipc : IpcComponent H) (b : UInt8)

/-- A byte is stored only where a payload byte is expected. -/
theorem eventHandler_buffer :
    (ipcStateMachineEventHandler ipc b).1.ipcReceivedDataPacketBuffer =
      match ipc.writeOffset with
      | some offset => Function.update ipc.ipcReceivedDataPacketBuffer offset b
      | none => ipc.ipcReceivedDataPacketBuffer := by
  unfold ipcStateMachineEventHandler IpcComponent.writeOffset
  cases ipc.ipcStateMachineState <;> dsimp only <;> repeat' first | rfl | split

theorem eventHandler_handler :
    (ipcStateMachineEventHandler ipc b).1.ipcDataPacketReceivedEventHandler =
      ipc.ipcDataPacketReceivedEventHandler := by
  unfold ipcStateMachineEventHandler
  cases ipc.ipcStateMachineState <;> dsimp only <;> repeat' first | rfl | split

end Frame

private theorem received_snoc {ipc ipc' : IpcComponent H} {payload : List UInt8} {b : UInt8}
    (h : ipc.received payload.length = payload)
    (hb : ipc'.ipcReceivedDataPacketBuffer =
      Function.update ipc.ipcReceivedDataPacketBuffer payload.length b) :
    ipc'.received (payload ++ [b]).length = payload ++ [b] := by
  rw [List.length_append, List.length_singleton, IpcComponent.received, hb, List.range_succ,
    List.map_append, List.map_singleton, Function.update_self]
  congr 1
  refine Eq.trans ?_ h
  apply List.map_congr_left
  intro k hk
  rw [Function.update_of_ne (Nat.ne_of_lt (List.mem_range.mp hk))]

theorem ofNat_toNat_of_le {n : Nat} (h : n ≤ ipcPacketMaxDataLength) :
    (UInt8.ofNat n).toNat = n := by
  have hmax : ipcPacketMaxDataLength = 251 := rfl
  rw [UInt8.toNat_ofNat', Nat.mod_eq_of_lt (by omega)]

section Step
variable {ipc : IpcComponent H} {r : Receiver}

def Follows (ipc : IpcComponent H) (r : Receiver) (b : UInt8) : Prop :=
  Represents (ipcStateMachineEventHandler ipc b).1 (r.step ipcFormat b).1 ∧
    (ipcStateMachineEventHandler ipc b).2 =
      (r.step ipcFormat b).2.map postProcessingParams ∧
    ∀ packet ∈ (r.step ipcFormat b).2, ipcFormat.Admits packet.payload ∧
      (ipcStateMachineEventHandler ipc b).1.received packet.payload.length = packet.payload

private theorem hunting_follows {half : Bool} (h : Represents ipc (.hunting half)) (b : UInt8) :
    Follows ipc (.hunting half) b := by
  obtain ⟨hs, hp⟩ := h
  cases half with
  | false =>
    by_cases hb : b = headerParamLsb
    · simp [Follows, ipcStateMachineEventHandler, hs, hp, Receiver.step, ipcFormat, hb, Represents]
    · simp [Follows, ipcStateMachineEventHandler, hs, hp, Receiver.step, ipcFormat, hb, Represents]
  | true =>
    by_cases hb : b = headerParamMsb
    · simp [Follows, ipcStateMachineEventHandler, hs, hp, Receiver.step, ipcFormat, hb, Represents]
    · simp [Follows, ipcStateMachineEventHandler, hs, hp, Receiver.step, ipcFormat, hb, Represents]

private theorem length_follows (h : Represents ipc .length) (b : UInt8) :
    Follows ipc .length b := by
  obtain ⟨hs, hp⟩ := h
  by_cases hb : 0 < b.toNat ∧ b.toNat ≤ ipcPacketMaxDataLength
  · have hstep : Receiver.length.step ipcFormat b = (.data b.toNat [], none) :=
      congrArg (·, none) (if_pos hb)
    simp only [Follows, ipcStateMachineEventHandler, hs, hp, hstep, if_pos hb]
    exact ⟨⟨rfl, by simp, hb.1, hb.2, rfl⟩, rfl, by simp⟩
  · have hstep : Receiver.length.step ipcFormat b = (.hunting false, none) :=
      congrArg (·, none) (if_neg hb)
    simp only [Follows, ipcStateMachineEventHandler, hs, hp, hstep, if_neg hb]
    exact ⟨⟨rfl, rfl⟩, rfl, by simp⟩

private theorem data_follows {expected : Nat} {payload : List UInt8}
    (h : Represents ipc (.data expected payload)) (b : UInt8) :
    Follows ipc (.data expected payload) b := by
  obtain ⟨hs, hp, hlt, hle, hgot⟩ := h
  have hmax : ipcPacketMaxDataLength = 251 := rfl
  have hoffset : (UInt8.ofNat payload.length).toNat = payload.length :=
    ofNat_toNat_of_le (by omega)
  have hnext : UInt8.ofNat payload.length + 1 = UInt8.ofNat (payload.length + 1) := by simp
  -- the wrapped byte counters are equal exactly when the lengths are
  have hlast : UInt8.ofNat (payload.length + 1) = UInt8.ofNat expected ↔
      payload.length + 1 = expected := by
    constructor
    · intro he
      rw [← ofNat_toNat_of_le hle, ← he, ofNat_toNat_of_le (by omega)]
    · rintro rfl
      rfl
  have hsnoc : ∀ ipc' : IpcComponent H, ipc'.ipcReceivedDataPacketBuffer =
      Function.update ipc.ipcReceivedDataPacketBuffer payload.length b →
      ipc'.received (payload ++ [b]).length = payload ++ [b] := fun ipc' hb => received_snoc hgot hb
  simp only [Follows, ipcStateMachineEventHandler, hs, hp, Receiver.step, hoffset, hnext, hlast,
    List.length_append, List.length_singleton]
  by_cases hend : payload.length + 1 = expected
  · rw [if_pos hend, if_pos hend]
    refine ⟨⟨rfl, ?_, ⟨by simp, ?_⟩, hsnoc _ rfl⟩, rfl, by simp⟩
    · simp [hend]
    · rw [List.length_append, List.length_singleton, hend]
      exact hle
  · rw [if_neg hend, if_neg hend]
    refine ⟨⟨rfl, ?_, ?_, hle, hsnoc _ rfl⟩, rfl, by simp⟩
    · simp
    · rw [List.length_append, List.length_singleton]
      omega

private theorem check_follows {payload : List UInt8} (h : Represents ipc (.check payload))
    (b : UInt8) : Follows ipc (.check payload) b := by
  obtain ⟨hs, hp, hadmits, hgot⟩ := h
  simp only [Follows, ipcStateMachineEventHandler, hs, hp, Receiver.step, Option.map_some,
    Option.mem_some_iff, forall_eq']
  exact ⟨⟨rfl, rfl⟩, rfl, hadmits, hgot⟩

/-- Each byte is followed on both sides, and a packet that is handed over lies at the
start of the buffer. -/
theorem step_follows (h : Represents ipc r) (b : UInt8) : Follows ipc r b := by
  cases r with
  | hunting half => exact hunting_follows h b
  | length => exact length_follows h b
  | data expected payload => exact data_follows h b
  | check payload => exact check_follows h b

end Step

def IpcComponent.receive :
    IpcComponent H → List UInt8 → IpcComponent H × List IpcReceivedDataPacketPostProcessingParams
  | ipc, [] => (ipc, [])
  | ipc, b :: rest =>
    let next := ipcStateMachineEventHandler ipc b
    let last := receive next.1 rest
    (last.1, next.2.toList ++ last.2)

/-- A byte stream is followed on both sides. -/
theorem receive_follows {ipc : IpcComponent H} {r : Receiver} (h : Represents ipc r)
    (bytes : List UInt8) :
    Represents (ipc.receive bytes).1 (r.feed ipcFormat bytes).1 ∧
      (ipc.receive bytes).2 = (r.feed ipcFormat bytes).2.map postProcessingParams := by
  induction bytes generalizing ipc r with
  | nil => exact ⟨h, rfl⟩
  | cons b rest ih =>
    obtain ⟨hnext, hput, _⟩ := step_follows h b
    obtain ⟨hlast, hrest⟩ := ih hnext
    refine ⟨hlast, ?_⟩
    rw [IpcComponent.receive, Receiver.feed_cons, List.map_append, ← hrest, hput]
    cases (r.step ipcFormat b).2 <;> rfl

private theorem receive_append (ipc : IpcComponent H) (a b : List UInt8) :
    ipc.receive (a ++ b) = (((ipc.receive a).1.receive b).1,
      (ipc.receive a).2 ++ ((ipc.receive a).1.receive b).2) := by
  induction a generalizing ipc with
  | nil => rfl
  | cons c rest ih => rw [List.cons_append, IpcComponent.receive, ih, IpcComponent.receive,
      List.append_assoc]

/-- A frame is put into the queue as its packet, which then lies at the start of the
buffer. -/
theorem receive_frame {ipc : IpcComponent H} (h : Represents ipc (.hunting false))
    {payload : List UInt8} (hadmits : ipcFormat.Admits payload) :
    let next := ipc.receive (ipcFormat.frame payload)
    Represents next.1 (.hunting false) ∧
      next.2 = [postProcessingParams (ipcFormat.packet payload)] ∧
      next.1.received payload.length = payload := by
  intro next
  obtain ⟨hlast, hput⟩ := receive_follows h (ipcFormat.frame payload)
  rw [Receiver.feed_frame hadmits] at hlast hput
  refine ⟨hlast, hput, ?_⟩
  have hinit := (receive_follows h
    (ipcFormat.lsb :: ipcFormat.msb :: UInt8.ofNat payload.length :: payload)).1
  rw [Receiver.feed_frame_init hadmits] at hinit
  have hframe : ipcFormat.frame payload =
      (ipcFormat.lsb :: ipcFormat.msb :: UInt8.ofNat payload.length :: payload) ++
        [ipcFormat.checksum payload] := rfl
  have hnext : next.1 = (ipcStateMachineEventHandler (ipc.receive
      (ipcFormat.lsb :: ipcFormat.msb :: UInt8.ofNat payload.length :: payload)).1
      (ipcFormat.checksum payload)).1 := by
    simp only [next]
    rw [hframe, receive_append]
    rfl
  rw [hnext]
  exact ((step_follows hinit (ipcFormat.checksum payload)).2.2 _ rfl).2

end ClosedLoopStepper.Ipc
