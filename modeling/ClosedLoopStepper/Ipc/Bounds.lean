import ClosedLoopStepper.Ipc.Synchronisation

/-! The static variables of the receive state machine as an invariant of their own. The
payload byte is stored without a check of the offset, so the offset has to stay below the
announced length, and the length below the size of the buffer, over every byte stream. -/
namespace ClosedLoopStepper.Ipc
open Foundations.Framing
variable {H : Type}

/-- What the state says about the three parameters. -/
structure IpcComponent.WellFormed (ipc : IpcComponent H) : Prop where
  length_le : ipc.ipcStateMachineParams.expectedDataLength.toNat ≤ 251
  length_zero : ipc.ipcStateMachineState = .idle ∨ ipc.ipcStateMachineState = .getDataLength →
    ipc.ipcStateMachineParams.expectedDataLength = 0
  length_pos : ipc.ipcStateMachineState = .getData ∨ ipc.ipcStateMachineState = .getDataCrc →
    1 ≤ ipc.ipcStateMachineParams.expectedDataLength.toNat
  offset_lt : ipc.ipcStateMachineState = .getData →
    ipc.ipcStateMachineParams.currentDataOffset.toNat <
      ipc.ipcStateMachineParams.expectedDataLength.toNat
  offset_zero : ipc.ipcStateMachineState ≠ .getData →
    ipc.ipcStateMachineParams.currentDataOffset = 0
  index : ipc.ipcStateMachineParams.currentHeaderParamIndex = 0 ∨
    ipc.ipcStateMachineParams.currentHeaderParamIndex = 1
  index_zero : ipc.ipcStateMachineState ≠ .idle →
    ipc.ipcStateMachineParams.currentHeaderParamIndex = 0

def IpcComponent.writes : IpcComponent H → List UInt8 → List Nat
  | _, [] => []
  | ipc, b :: rest => ipc.writeOffset.toList ++ (ipcStateMachineEventHandler ipc b).1.writes rest

section Represented
variable {ipc : IpcComponent H} {r : Receiver}

/-- Variables that stand for a framing receiver satisfy the invariant. -/
theorem Represents.variables (h : Represents ipc r) : ipc.WellFormed := by
  cases r with
  | hunting half =>
    obtain ⟨hs, hp⟩ := h
    constructor <;> rw [hp] <;> simp only [hs] <;> cases half <;> decide
  | length =>
    obtain ⟨hs, hp⟩ := h
    constructor <;> rw [hp] <;> simp only [hs] <;> decide
  | data expected payload =>
    obtain ⟨hs, hp, hlt, hle, _⟩ := h
    have hmax : ipcPacketMaxDataLength = 251 := rfl
    have hlength : (UInt8.ofNat expected).toNat = expected := ofNat_toNat_of_le hle
    have hoffset : (UInt8.ofNat payload.length).toNat = payload.length :=
      ofNat_toNat_of_le (by omega)
    constructor
    · rw [hp, hlength]
      omega
    · rw [hs]
      intro hearly
      simp at hearly
    · intro _
      rw [hp, hlength]
      omega
    · intro _
      rw [hp, hlength, hoffset]
      exact hlt
    · exact fun hother => absurd hs hother
    · rw [hp]
      exact Or.inl rfl
    · intro _
      rw [hp]
  | check payload =>
    obtain ⟨hs, hp, hadmits, _⟩ := h
    have hlength := Receiver.length_toNat hadmits
    constructor
    · rw [hp, hlength]
      exact hadmits.2
    · rw [hs]
      intro hearly
      simp at hearly
    · intro _
      rw [hp, hlength]
      exact hadmits.1
    · rw [hs]
      intro hdata
      cases hdata
    · intro _
      rw [hp]
    · rw [hp]
      exact Or.inl rfl
    · intro _
      rw [hp]

private theorem IpcComponent.WellFormed.writeOffset_lt (h : ipc.WellFormed) {offset : Nat}
    (hw : offset ∈ ipc.writeOffset) : offset < 251 := by
  unfold IpcComponent.writeOffset at hw
  split at hw
  · rename_i hs
    have hlt := h.offset_lt hs
    have hle := h.length_le
    cases hw
    omega
  · cases hw

private theorem IpcComponent.WellFormed.eventHandler_behind (h : ipc.WellFormed) (b : UInt8)
    {i : Nat}
    (hi : 251 ≤ i) :
    (ipcStateMachineEventHandler ipc b).1.ipcReceivedDataPacketBuffer i =
      ipc.ipcReceivedDataPacketBuffer i := by
  rw [eventHandler_buffer]
  cases hw : ipc.writeOffset with
  | none => rfl
  | some offset =>
    have hlt := h.writeOffset_lt hw
    exact Function.update_of_ne (by omega) _ _

private theorem writes_lt (h : Represents ipc r) {stream : List UInt8} :
    ∀ offset ∈ ipc.writes stream, offset < 251 := by
  induction stream generalizing ipc r with
  | nil => exact fun offset hin => absurd hin List.not_mem_nil
  | cons b rest ih =>
    intro offset hin
    rw [IpcComponent.writes, List.mem_append, Option.mem_toList] at hin
    rcases hin with hnow | hlater
    · exact h.variables.writeOffset_lt hnow
    · exact ih (step_follows h b).1 offset hlater

private theorem receive_behind (h : Represents ipc r) {stream : List UInt8} {i : Nat}
    (hi : 251 ≤ i) :
    (ipc.receive stream).1.ipcReceivedDataPacketBuffer i = ipc.ipcReceivedDataPacketBuffer i := by
  induction stream generalizing ipc r with
  | nil => rfl
  | cons b rest ih =>
    rw [IpcComponent.receive, ih (step_follows h b).1]
    exact h.variables.eventHandler_behind b hi

private theorem receive_sizes (h : Represents ipc r) {stream : List UInt8} :
    ∀ params ∈ (ipc.receive stream).2,
      1 ≤ params.receivedDataSize.toNat ∧ params.receivedDataSize.toNat ≤ 251 := by
  induction stream generalizing ipc r with
  | nil => exact fun params hin => absurd hin List.not_mem_nil
  | cons b rest ih =>
    obtain ⟨hnext, hput, hadmitted⟩ := step_follows h b
    intro params hin
    rw [IpcComponent.receive, List.mem_append, Option.mem_toList] at hin
    rcases hin with hnow | hlater
    · rw [hput] at hnow
      obtain ⟨packet, hpacket, rfl⟩ := Option.map_eq_some_iff.mp hnow
      have hadmits := (hadmitted packet hpacket).1
      rw [postProcessingParams, Receiver.length_toNat hadmits]
      exact hadmits
    · exact ih hnext params hlater

end Represented

/-- After every byte stream the variables satisfy the invariant; nothing was stored at or
behind the end of the buffer, and no size outside the buffer was put into the queue. -/
theorem receive_bounds (handler : Option H) (stream : List UInt8) :
    let start := (ipcInit .initial handler).1
    let reached := start.receive stream
    reached.1.WellFormed ∧
      (∀ offset ∈ start.writes stream, offset < 251) ∧
      (∀ i, 251 ≤ i →
        reached.1.ipcReceivedDataPacketBuffer i = start.ipcReceivedDataPacketBuffer i) ∧
      ∀ params ∈ reached.2,
        1 ≤ params.receivedDataSize.toNat ∧ params.receivedDataSize.toNat ≤ 251 := by
  intro start reached
  have hstart : Represents start (.hunting false) := ⟨rfl, rfl⟩
  obtain ⟨r, hreached⟩ := receive_represents handler stream
  exact ⟨hreached.variables, writes_lt hstart, fun i hi => receive_behind hstart hi,
    receive_sizes hstart⟩

end ClosedLoopStepper.Ipc
