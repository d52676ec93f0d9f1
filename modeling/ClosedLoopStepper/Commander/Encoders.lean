import ClosedLoopStepper.Commander.Ipc

/-! The two encoders side by side. The firmware refuses a payload whose length its receiver
would not take; the commander sends whatever length a byte can hold. -/
namespace ClosedLoopStepper.Commander
open Common Foundations Foundations.Framing Ipc

/-- What the firmware's receiver, as it starts, puts into the queue for some bytes. -/
def scheduled (bytes : List UInt8) : List IpcReceivedDataPacketPostProcessingParams :=
  ((IpcComponent.initial (H := Unit)).receive bytes).2

/-- The encoders accept the same payload and emit the same bytes for it, a refused payload
emits nothing, and what either emits is scheduled by the receiver. -/
structure EncodersAgree (payload : List UInt8) : Prop where
  accept_iff : (sendDataPacket payload).isSome ↔
    (ipcSendDataPacket (some (pointer payload)) (UInt8.ofNat payload.length)).1 = .ok
  same_bytes :
    (ipcSendDataPacket (some (pointer payload)) (UInt8.ofNat payload.length)).1 = .ok →
      sendDataPacket payload =
        some (ipcSendDataPacket (some (pointer payload)) (UInt8.ofNat payload.length)).2
  refused_silent :
    (ipcSendDataPacket (some (pointer payload)) (UInt8.ofNat payload.length)).1 ≠ .ok →
      (ipcSendDataPacket (some (pointer payload)) (UInt8.ofNat payload.length)).2 = []
  commander_scheduled : ∀ bytes, sendDataPacket payload = some bytes →
    scheduled bytes = [⟨UInt8.ofNat payload.length, dataPacketCrc payload⟩]
  firmware_scheduled :
    (ipcSendDataPacket (some (pointer payload)) (UInt8.ofNat payload.length)).1 = .ok →
      scheduled (ipcSendDataPacket (some (pointer payload)) (UInt8.ofNat payload.length)).2 =
        [⟨UInt8.ofNat payload.length, dataPacketCrc payload⟩]

private theorem scheduled_frame {payload : List UInt8} (h : ipcFormat.Admits payload) :
    scheduled (ipcFormat.frame payload) = [⟨UInt8.ofNat payload.length, dataPacketCrc payload⟩] := by
  have hr : Represents (IpcComponent.initial (H := Unit)) (.hunting false) := ⟨rfl, rfl⟩
  have hfed := (receive_follows hr (ipcFormat.frame payload)).2
  rw [Receiver.feed_frame h] at hfed
  exact hfed

private theorem ipcSendDataPacket_refused {payload : List UInt8} (hlength : payload.length < 256)
    (h : ¬ ipcFormat.Admits payload) :
    ipcSendDataPacket (some (pointer payload)) (UInt8.ofNat payload.length) =
      (.invalidLength, []) := by
  have htoNat : (UInt8.ofNat payload.length).toNat = payload.length := by
    rw [UInt8.toNat_ofNat', Nat.mod_eq_of_lt hlength]
  have hbounds : ¬ (0 < payload.length ∧ payload.length ≤ Ipc.ipcPacketMaxDataLength) := h
  simp only [ipcSendDataPacket, htoNat, if_neg hbounds]

/-- Of the payloads whose length is a byte, the encoders agree on those of one to 251
bytes. -/
theorem encoders_agree_iff (payload : List UInt8) (hlength : payload.length < 256) :
    EncodersAgree payload ↔ 0 < payload.length ∧ payload.length ≤ 251 := by
  constructor
  · intro hagree
    by_contra hbounds
    have hrefused := ipcSendDataPacket_refused hlength hbounds
    have hsent : (sendDataPacket payload).isSome := by
      rw [sendDataPacket, if_pos hlength]
      rfl
    have hok := hagree.accept_iff.mp hsent
    rw [hrefused] at hok
    cases hok
  · intro hadmits
    have hcommander := sendDataPacket_frame hadmits
    have hfirmware := ipcSendDataPacket_frame hadmits
    constructor
    · rw [hcommander, hfirmware]
      exact iff_of_true rfl rfl
    · intro _
      rw [hcommander, hfirmware]
    · intro hrefused
      rw [hfirmware] at hrefused
      exact absurd rfl hrefused
    · intro bytes hbytes
      rw [hcommander, Option.some.injEq] at hbytes
      rw [← hbytes]
      exact scheduled_frame hadmits
    · intro _
      rw [hfirmware]
      exact scheduled_frame hadmits

theorem encoders_agree_short : EncodersAgree [0xA5] :=
  (encoders_agree_iff [0xA5] (by decide)).mpr (by decide)

/-- The commander sends an empty payload; the firmware refuses it, on both sides. -/
theorem empty_payload_sent :
    ¬ EncodersAgree [] ∧ sendDataPacket [] = some [0xA5, 0x5A, 0, 0] ∧
      ipcSendDataPacket (some (pointer [])) 0 = (.invalidLength, []) ∧
      scheduled [0xA5, 0x5A, 0, 0] = [] := by
  refine ⟨fun hagree => ?_, by decide, by decide, by decide⟩
  have hok := hagree.accept_iff.mp (by decide)
  revert hok
  decide

end ClosedLoopStepper.Commander
