import ClosedLoopStepper.Device.Service

/-! A turn of the loop one step at a time, preempted by the callbacks between any two. A
handler has read the position, or a part of the receive buffer, when the next byte or edge
comes, and its own calls come after that. The scheduler's statements are not cut here. -/
namespace ClosedLoopStepper.Device
open Foundations Common Scheduler Ipc Encoder StepperMotor Application

/-- What the loop does next: its test, the checksum of a packet, the copy of a command out
of the receive buffer, the state machine, the calls it has still to make, or the end of
the turn. -/
inductive TurnPoint
  | loop
  | verify (params : IpcReceivedDataPacketPostProcessingParams) (receivedDataPacketOffset : Nat)
      (receivedDataPacketCrc : UInt8)
  | copy (copied : List UInt8)
  | handle (eventData : UserApplicationStateMachineEventData)
  | perform (actions : List Action)
  | complete

structure PreemptedFirmware (Q : Type) where
  firmware : Firmware Q
  point : TurnPoint

/-- A callback, run to its end, or one step of the loop. -/
inductive PreemptedInput
  | receivedByte (receivedData : UInt8)
  | pinTransition (gpio eventMask : Nat) (levelA levelB : Bool)
  | advance
  deriving DecidableEq, Repr

def commandFrameSize : Nat := 3

theorem received_succ (ipc : IpcComponent Handler) (offset : Nat) :
    ipc.received (offset + 1) = ipc.received offset ++ [ipc.ipcReceivedDataPacketBuffer offset] := by
  rw [IpcComponent.received, List.range_succ, List.map_append]
  rfl

/-- The loop over the bytes, one further. -/
theorem crc_received_succ (ipc : IpcComponent Handler) (offset : Nat) :
    dataPacketCrc (ipc.received offset) ^^^ ipc.ipcReceivedDataPacketBuffer offset =
      dataPacketCrc (ipc.received (offset + 1)) := by
  rw [received_succ, dataPacketCrc, dataPacketCrc, List.foldl_append]
  rfl

namespace PreemptedFirmware
variable {Q : Type} [EventQueue Q Handler]

def enter (fw : Firmware Q) (e : SchedulerEvent Handler) : PreemptedFirmware Q :=
  match e.handler with
  | .ipcReceivedDataPacketPostProcessing =>
    ⟨fw, if e.data = [] then .complete else .verify (.ofBytes e.data) 0 0⟩
  | .userApplicationStateMachine =>
    match UserApplicationStateMachineEventData.ofBytes e.data with
    | some eventData => ⟨fw, .handle eventData⟩
    | none => ⟨fw, .complete⟩
  | handler => ⟨fw.call handler, .complete⟩

def verified (fw : Firmware Q) (params : IpcReceivedDataPacketPostProcessingParams)
    (receivedDataPacketCrc : UInt8) : PreemptedFirmware Q :=
  match fw.ipc.ipcDataPacketReceivedEventHandler with
  | some .userApplicationProcessReceivedDataPacket =>
    let payload := fw.ipc.received params.receivedDataSize.toNat
    if receivedDataPacketCrc = params.expectedDataCrc then
      ⟨fw.emit (.received .ok payload), .copy []⟩
    else ⟨fw.emit (.received .packetCorrupted payload), .complete⟩
  | _ => ⟨fw, .complete⟩

def advance (fw : Firmware Q) : TurnPoint → PreemptedFirmware Q
  | .loop =>
    match EventQueue.current fw.scheduler with
    | some e => enter fw e
    | none => ⟨fw, .loop⟩
  | .verify params offset crc =>
    if offset < params.receivedDataSize.toNat then
      ⟨fw, .verify params (offset + 1) (crc ^^^ fw.ipc.ipcReceivedDataPacketBuffer offset)⟩
    else verified fw params crc
  | .copy copied =>
    if copied.length < commandFrameSize then
      ⟨fw, .copy (copied ++ [fw.ipc.ipcReceivedDataPacketBuffer copied.length])⟩
    else ⟨fw.putEvent ⟨.processCmdRequest, .ofMemory (pointer copied)⟩, .complete⟩
  | .handle eventData =>
    let next := userApplicationStateMachineEventHandler fw.userApplication
      (encoderDrvGetEncoderPosition fw.encoder) eventData
    ⟨{ fw with userApplication := next.1 }, .perform next.2⟩
  | .perform [] => ⟨fw, .complete⟩
  | .perform (action :: rest) => ⟨fw.perform action, .perform rest⟩
  | .complete => ⟨fw.completeEvent, .loop⟩

def step (s : PreemptedFirmware Q) : PreemptedInput → PreemptedFirmware Q
  | .receivedByte receivedData => ⟨s.firmware.receiveByte receivedData, s.point⟩
  | .pinTransition gpio eventMask levelA levelB =>
    ⟨s.firmware.pinTransition gpio eventMask levelA levelB, s.point⟩
  | .advance => advance s.firmware s.point

def Reaches (s t : PreemptedFirmware Q) : Prop :=
  ∃ n, Machine.run step s (List.replicate n .advance) = t

theorem Reaches.refl (s : PreemptedFirmware Q) : Reaches s s := ⟨0, rfl⟩

variable (fw : Firmware Q)

theorem Reaches.head {point : TurnPoint} {t : PreemptedFirmware Q}
    (h : Reaches (advance fw point) t) : Reaches ⟨fw, point⟩ t := by
  obtain ⟨n, hn⟩ := h
  exact ⟨n + 1, hn⟩

private theorem verify_reaches (params : IpcReceivedDataPacketPostProcessingParams)
    (left offset : Nat)
    (h : offset + left = params.receivedDataSize.toNat) {t : PreemptedFirmware Q}
    (ht : Reaches (verified fw params
      (dataPacketCrc (fw.ipc.received params.receivedDataSize.toNat))) t) :
    Reaches ⟨fw, .verify params offset (dataPacketCrc (fw.ipc.received offset))⟩ t := by
  induction left generalizing offset with
  | zero =>
    apply Reaches.head
    rw [advance, if_neg (by omega), ← Nat.add_zero offset, h]
    exact ht
  | succ left ih =>
    apply Reaches.head
    rw [advance, if_pos (by omega), crc_received_succ]
    exact ih (offset + 1) (by omega)

private theorem perform_reaches (actions : List Action) {t : PreemptedFirmware Q}
    (ht : Reaches ⟨actions.foldl Firmware.perform fw, .complete⟩ t) :
    Reaches ⟨fw, .perform actions⟩ t := by
  induction actions generalizing fw with
  | nil => exact Reaches.head fw ht
  | cons action rest ih => exact Reaches.head fw (ih (fw.perform action) ht)

private theorem copy_reaches {t : PreemptedFirmware Q}
    (ht : Reaches ⟨fw.putEvent ⟨.processCmdRequest,
      .ofMemory fw.ipc.ipcReceivedDataPacketBuffer⟩, .complete⟩ t) :
    Reaches ⟨fw, .copy []⟩ t :=
  Reaches.head fw (Reaches.head fw (Reaches.head fw (Reaches.head fw ht)))

private theorem postProcess_reaches (params : IpcReceivedDataPacketPostProcessingParams)
    {t : PreemptedFirmware Q} (ht : Reaches ⟨fw.postProcess params, .complete⟩ t) :
    Reaches ⟨fw, .verify params 0 0⟩ t := by
  refine verify_reaches fw params params.receivedDataSize.toNat 0 (Nat.zero_add _) ?_
  rw [Firmware.postProcess] at ht
  rw [verified]
  cases hhandler : fw.ipc.ipcDataPacketReceivedEventHandler with
  | none =>
    rw [hhandler] at ht
    exact ht
  | some handler =>
    rw [hhandler] at ht
    cases handler with
    | userApplicationProcessReceivedDataPacket =>
      simp only [Firmware.processReceivedDataPacket,
        ipcReceivedDataPacketPostProcessingHandler] at ht
      dsimp only
      split
      · rename_i hcrc
        rw [if_pos hcrc] at ht
        exact copy_reaches _ ht
      · rename_i hcrc
        rw [if_neg hcrc] at ht
        exact ht
    | _ => exact ht

private theorem enter_reaches (e : SchedulerEvent Handler) {t : PreemptedFirmware Q}
    (ht : Reaches ⟨fw.invoke e, .complete⟩ t) : Reaches (enter fw e) t := by
  obtain ⟨handler, data⟩ := e
  cases handler with
  | ipcReceivedDataPacketPostProcessing =>
    simp only [Firmware.invoke] at ht
    simp only [enter]
    split
    · rwa [if_pos ‹_›] at ht
    · rw [if_neg ‹_›] at ht
      exact postProcess_reaches fw _ ht
  | userApplicationStateMachine =>
    simp only [Firmware.invoke] at ht
    simp only [enter]
    cases hdata : UserApplicationStateMachineEventData.ofBytes data with
    | none => rwa [hdata] at ht
    | some eventData =>
      rw [hdata] at ht
      exact Reaches.head fw (perform_reaches _ _ ht)
  | null => exact ht
  | userApplicationProcessReceivedDataPacket => exact ht
  | userApplicationEncoderStepActivity => exact ht
  | userApplicationEncoderHomeActivity => exact ht

/-- A turn that nothing preempts is the turn of the firmware. -/
theorem executeEvent_reaches : Reaches ⟨fw, .loop⟩ ⟨fw.executeEvent, .loop⟩ := by
  rw [Firmware.executeEvent]
  cases hcurrent : EventQueue.current fw.scheduler with
  | none => exact Reaches.refl _
  | some e =>
    apply Reaches.head
    rw [advance, hcurrent]
    exact enter_reaches fw e (Reaches.head _ (Reaches.refl _))

/-- The runs of the firmware are among these runs. -/
theorem run_reached (inputs : List Input) :
    ∃ preempted, Machine.run step ⟨fw, .loop⟩ preempted =
      ⟨Machine.run Firmware.step fw inputs, .loop⟩ := by
  induction inputs generalizing fw with
  | nil => exact ⟨[], rfl⟩
  | cons i rest ih =>
    obtain ⟨later, hlater⟩ := ih (fw.step i)
    cases i with
    | receivedByte b => exact ⟨.receivedByte b :: later, hlater⟩
    | pinTransition gpio eventMask levelA levelB =>
      exact ⟨.pinTransition gpio eventMask levelA levelB :: later, hlater⟩
    | execute =>
      obtain ⟨n, hn⟩ := executeEvent_reaches fw
      refine ⟨List.replicate n .advance ++ later, ?_⟩
      rw [Machine.run_append, hn]
      exact hlater

section Beside
variable {Q' : Type} [EventQueue Q' Handler] {R : Q → Q' → Prop}

/-- The same point of the turn over related queues, with an event in them while it lasts. -/
def Beside (R : Q → Q' → Prop) (s : PreemptedFirmware Q) (s' : PreemptedFirmware Q') : Prop :=
  s.point = s'.point ∧
    Alongside (fun q q' => R q q' ∧ (s.point ≠ .loop → (EventQueue.current q').isSome))
      s.firmware s'.firmware

def Running (R : Q → Q' → Prop) (q : Q) (q' : Q') : Prop :=
  R q q' ∧ (EventQueue.current q').isSome

private theorem running_put (hR : QueueSimulation R) : PutsKeep (Running R) :=
  fun q q' e h => ⟨hR.put q q' e h.1, hR.stays q q' e h.1 h.2⟩

variable {fw} {fw' : Firmware Q'}

omit [EventQueue Q Handler] in
private theorem beside_of_running {point : TurnPoint} (h : Alongside (Running R) fw fw') :
    Beside R ⟨fw, point⟩ ⟨fw', point⟩ := by
  obtain ⟨q', hq, heq⟩ := h
  exact ⟨rfl, q', ⟨hq.1, fun _ => hq.2⟩, heq⟩

omit [EventQueue Q Handler] in
private theorem running_of_beside {point point' : TurnPoint}
    (h : Beside R ⟨fw, point⟩ ⟨fw', point'⟩)
    (hpoint : point ≠ .loop) : Alongside (Running R) fw fw' := by
  obtain ⟨_, q', hq, heq⟩ := h
  exact ⟨q', ⟨hq.1, hq.2 hpoint⟩, heq⟩

private theorem enter_beside (hR : QueueSimulation R) (h : Alongside (Running R) fw fw')
    (e : SchedulerEvent Handler) : Beside R (enter fw e) (enter fw' e) := by
  simp only [enter]
  split
  · exact beside_of_running h
  · split
    · exact beside_of_running h
    · exact beside_of_running h
  · exact beside_of_running (call_alongside (running_put hR) h _)

omit [EventQueue Q Handler] in
private theorem verified_beside (h : Alongside (Running R) fw fw')
    (params : IpcReceivedDataPacketPostProcessingParams) (crc : UInt8) :
    Beside R (verified fw params crc) (verified fw' params crc) := by
  obtain ⟨q', hq, rfl⟩ := h
  have hipc : (fw.over q').ipc = fw.ipc := rfl
  simp only [verified, hipc]
  split
  · split
    · exact beside_of_running ⟨q', hq, rfl⟩
    · exact beside_of_running ⟨q', hq, rfl⟩
  · exact beside_of_running ⟨q', hq, rfl⟩

private theorem advance_beside (hR : QueueSimulation R) {point : TurnPoint}
    (h : Beside R ⟨fw, point⟩ ⟨fw', point⟩) : Beside R (advance fw point) (advance fw' point) := by
  cases point with
  | loop =>
    obtain ⟨_, q', hq, heq⟩ := h
    change fw' = fw.over q' at heq
    subst heq
    have hcurrent : EventQueue.current fw.scheduler = EventQueue.current (fw.over q').scheduler :=
      hR.current _ _ hq.1
    rw [advance, advance, hcurrent]
    cases he : EventQueue.current (fw.over q').scheduler with
    | none => exact ⟨rfl, q', hq, rfl⟩
    | some e => exact enter_beside hR ⟨q', ⟨hq.1, Option.isSome_of_mem he⟩, rfl⟩ e
  | verify params offset crc =>
    have hrunning := running_of_beside h nofun
    have hipc : fw'.ipc = fw.ipc := by
      obtain ⟨_, _, rfl⟩ := hrunning
      rfl
    rw [advance, advance, hipc]
    split
    · exact beside_of_running hrunning
    · exact verified_beside hrunning params crc
  | copy copied =>
    have hrunning := running_of_beside h nofun
    have hipc : fw'.ipc = fw.ipc := by
      obtain ⟨_, _, rfl⟩ := hrunning
      rfl
    rw [advance, advance, hipc]
    split
    · exact beside_of_running hrunning
    · exact beside_of_running (put_alongside (running_put hR) hrunning _)
  | handle eventData =>
    obtain ⟨q', hq, rfl⟩ := running_of_beside h nofun
    exact beside_of_running ⟨q', hq, rfl⟩
  | perform actions =>
    have hrunning := running_of_beside h nofun
    cases actions with
    | nil => exact beside_of_running hrunning
    | cons action rest =>
      exact beside_of_running (perform_alongside (running_put hR) hrunning action)
  | complete =>
    obtain ⟨q', hq, rfl⟩ := running_of_beside h nofun
    exact ⟨rfl, _, ⟨hR.complete _ _ hq.1 hq.2, fun hne => absurd rfl hne⟩, rfl⟩

/-- Related queues stay so under preemption, too. -/
theorem step_beside (hR : QueueSimulation R) {s : PreemptedFirmware Q} {s' : PreemptedFirmware Q'}
    (h : Beside R s s') (i : PreemptedInput) : Beside R (s.step i) (s'.step i) := by
  obtain ⟨fw, point⟩ := s
  obtain ⟨fw', point'⟩ := s'
  obtain ⟨rfl, hfirmware⟩ := h
  have hput : PutsKeep fun (q : Q) (q' : Q') =>
      R q q' ∧ (point ≠ .loop → (EventQueue.current q').isSome = true) :=
    fun q q' e h => ⟨hR.put q q' e h.1, fun hne => hR.stays q q' e h.1 (h.2 hne)⟩
  cases i with
  | receivedByte b => exact ⟨rfl, receiveByte_alongside hput hfirmware b⟩
  | pinTransition gpio eventMask levelA levelB =>
    exact ⟨rfl, pinTransition_alongside hput hfirmware gpio eventMask levelA levelB⟩
  | advance => exact advance_beside hR ⟨rfl, hfirmware⟩

end Beside

end PreemptedFirmware
end ClosedLoopStepper.Device
