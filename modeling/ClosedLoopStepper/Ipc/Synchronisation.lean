import ClosedLoopStepper.Ipc.Receiver

/-! How the receive state machine finds a header behind other bytes. A second byte that is
not the header's sends it back to the start, even when it could begin a header itself.
Without first header bytes it comes back to the start from wherever it was. -/
namespace ClosedLoopStepper.Ipc
open Foundations.Framing
variable {H : Type}

/-- A header behind the bytes is found, and a frame behind them is put into the queue with
its own size and checksum byte, alone. -/
def Synchronises (ipc : IpcComponent H) (bytes : List UInt8) : Prop :=
  (ipc.receive (bytes ++ [headerParamLsb, headerParamMsb])).1.ipcStateMachineState = .getDataLength ∧
    ∀ payload, ipcFormat.Admits payload →
      (ipc.receive (bytes ++ ipcFormat.frame payload)).2 =
        [⟨UInt8.ofNat payload.length, dataPacketCrc payload⟩]

/-- From the parser's initial state, a header behind bytes that hold no header is found
exactly when the run of first header bytes just before it is of even length. -/
theorem synchronises_iff (ipc : IpcComponent H) (hstate : ipc.ipcStateMachineState = .idle)
    (hparams : ipc.ipcStateMachineParams = ⟨0, 0, 0⟩) (bytes : List UInt8)
    (hheadless : Receiver.Headless ipcFormat bytes) :
    Synchronises ipc bytes ↔ Even (Receiver.trailing ipcFormat bytes) := by
  have hr : Represents ipc (.hunting false) := ⟨hstate, hparams⟩
  have hheader := Receiver.feed_header ipcFormat (by decide) hheadless
  have hlast := (receive_follows hr (bytes ++ [headerParamLsb, headerParamMsb])).1
  change Represents _ ((Receiver.hunting false).feed ipcFormat
    (bytes ++ [ipcFormat.lsb, ipcFormat.msb])).1 at hlast
  rw [hheader] at hlast
  constructor
  · rintro ⟨hfound, _⟩
    by_contra hodd
    rw [if_neg hodd] at hlast
    rw [hlast.1] at hfound
    cases hfound
  · intro heven
    rw [if_pos heven] at hlast
    refine ⟨hlast.1, fun payload hadmits => ?_⟩
    have hframe := (receive_follows hr (bytes ++ ipcFormat.frame payload)).2
    rw [Receiver.feed_append, Receiver.feed_even ipcFormat hheadless heven,
      Receiver.feed_frame hadmits] at hframe
    exact hframe

/-- Two stray first header bytes just before the header, and one further off. -/
theorem synchronises_even_run :
    Synchronises (IpcComponent.initial (H := Unit)) [0xA5, 0x01, 0xA5, 0xA5] :=
  (synchronises_iff .initial rfl rfl [0xA5, 0x01, 0xA5, 0xA5] (by decide)).mpr (by decide)

/-- One stray first header byte just before the header hides it. -/
theorem stray_byte_hides_header :
    let ipc := (IpcComponent.initial (H := Unit)).receive ([0xA5] ++ [headerParamLsb, headerParamMsb])
    Receiver.Headless ipcFormat [0xA5] ∧ ipc.1.ipcStateMachineState = .idle := by
  decide

private theorem Represents.wellFormed {ipc : IpcComponent H} {r : Receiver} (h : Represents ipc r) :
    r.WellFormed ipcFormat := by
  cases r with
  | hunting half => trivial
  | length => trivial
  | data expected payload => exact ⟨h.2.2.1, h.2.2.2.1⟩
  | check payload => trivial

/-- After any bytes at all the static variables stand for a framing receiver. -/
theorem receive_represents (handler : Option H) (stream : List UInt8) :
    ∃ r, Represents ((ipcInit .initial handler).1.receive stream).1 r := by
  have hr : Represents (ipcInit .initial handler).1 (.hunting false) := ⟨rfl, rfl⟩
  exact ⟨_, (receive_follows hr stream).1⟩

/-- However the stream before broke off, as many bytes as follow the first of a longest
frame bring the parser back to its start if none is a first header byte, with at most one
packet put into the queue meanwhile, and the next frame is received as it was sent. -/
theorem resynchronises (handler : Option H) (stream quiet : List UInt8)
    (hlong : 254 ≤ quiet.length) (hquiet : 0xA5 ∉ quiet) :
    let reached := ((ipcInit .initial handler).1.receive stream).1
    let next := reached.receive quiet
    next.1.ipcStateMachineState = .idle ∧ next.1.ipcStateMachineParams = ⟨0, 0, 0⟩ ∧
      next.2.length ≤ 1 ∧
      ∀ payload, ipcFormat.Admits payload →
        let framed := next.1.receive (ipcFormat.frame payload)
        framed.2 = [⟨UInt8.ofNat payload.length, dataPacketCrc payload⟩] ∧
          framed.1.received payload.length = payload := by
  intro reached next
  obtain ⟨r, hreached⟩ := receive_represents handler stream
  obtain ⟨hnext, hputs⟩ := receive_follows hreached quiet
  obtain ⟨hstart, hone⟩ := Receiver.feed_quiet hreached.wellFormed hquiet hlong
  rw [hstart] at hnext
  refine ⟨hnext.1, hnext.2, ?_, ?_⟩
  · change (reached.receive quiet).2.length ≤ 1
    rw [hputs, List.length_map]
    exact hone
  · intro payload hadmits
    obtain ⟨_, hput, hpayload⟩ := receive_frame hnext hadmits
    exact ⟨hput, hpayload⟩

/-- A stream that breaks off behind the first header byte, and a pause of other bytes. -/
theorem resynchronises_broken_off :
    let reached := ((ipcInit (.initial (H := Unit)) none).1.receive [0xA5]).1
    let next := reached.receive (List.replicate 254 0x5A)
    next.1.ipcStateMachineState = .idle ∧ next.1.ipcStateMachineParams = ⟨0, 0, 0⟩ ∧
      next.2.length ≤ 1 ∧
      ∀ payload, ipcFormat.Admits payload →
        let framed := next.1.receive (ipcFormat.frame payload)
        framed.2 = [⟨UInt8.ofNat payload.length, dataPacketCrc payload⟩] ∧
          framed.1.received payload.length = payload :=
  resynchronises none [0xA5] (List.replicate 254 0x5A) (List.length_replicate ..).ge (by
    intro hin
    have hbyte := List.eq_of_mem_replicate hin
    revert hbyte
    decide)

def IpcComponent.progress (ipc : IpcComponent H) : Nat :=
  match ipc.ipcStateMachineState with
  | .idle => ipc.ipcStateMachineParams.currentHeaderParamIndex.toNat
  | .getDataLength => 2
  | .getData => if ipc.ipcStateMachineParams.currentDataOffset = 0 then 3 else 4
  | .getDataCrc => 4

theorem Represents.progress_eq {ipc : IpcComponent H} {r : Receiver} (h : Represents ipc r) :
    ipc.progress = r.progress := by
  unfold IpcComponent.progress Receiver.progress
  cases r with
  | hunting half =>
    rw [h.1, h.2]
    cases half <;> rfl
  | length => rw [h.1]
  | data expected payload =>
    obtain ⟨hs, hp, hlt, hle, _⟩ := h
    have hmax : ipcPacketMaxDataLength = 251 := rfl
    have hzero : UInt8.ofNat payload.length = 0 ↔ payload = [] := by
      rw [← UInt8.toNat_inj, ofNat_toNat_of_le (by omega), ← List.length_eq_zero_iff]
      rfl
    rw [hs, hp]
    simp only [hzero]
  | check payload => rw [h.1]

/-- A packet is put for five bytes at most often. -/
theorem Represents.step_progress {ipc : IpcComponent H} {r : Receiver} (h : Represents ipc r)
    (b : UInt8) :
    let next := ipcStateMachineEventHandler ipc b
    next.1.progress + 5 * next.2.toList.length ≤ ipc.progress + 1 := by
  obtain ⟨hnext, hput, _⟩ := step_follows h b
  intro next
  rw [hnext.progress_eq, h.progress_eq, hput]
  have hstep := r.step_progress (f := ipcFormat) b
  cases hpacket : (r.step ipcFormat b).2 with
  | none =>
    rw [hpacket] at hstep
    exact hstep
  | some packet =>
    rw [hpacket] at hstep
    exact hstep

end ClosedLoopStepper.Ipc
