import ClosedLoopStepper.Device.Delivery
import ClosedLoopStepper.Device.StaleBytes
import ClosedLoopStepper.Ipc.Synchronisation

/-! The loop of `main` and the watchdog, which is updated whenever the queue is found empty,
and for every byte that is received, checked or sent. How long interrupts can keep the loop
from it is a matter of accounting, as is how many of them the queue holds. -/
namespace ClosedLoopStepper.Device
open Foundations Foundations.Framing Scheduler Ipc Encoder StepperMotor Application

/-- The updates that a call of the application makes: the sending of a packet makes one for
each byte of its data. -/
def actionUpdates : Action → Nat
  | .ipcSendDataPacket dataPacket =>
    let dataPacketLength := UInt8.ofNat dataPacket.length
    match (ipcSendDataPacket (some (Common.pointer dataPacket)) dataPacketLength).1 with
    | .ok => dataPacketLength.toNat
    | .invalidLength | .invalidData => 0
  | .drive _ | .schedulerEventPut _ => 0

namespace Firmware
variable {Q : Type}

/-- The updates while the handler of an event runs: the checksum of a received packet makes
one for each byte. -/
def handlerUpdates (fw : Firmware Q) (e : SchedulerEvent Handler) : Nat :=
  match e.handler with
  | .ipcReceivedDataPacketPostProcessing =>
    if e.data = [] then 0
    else (IpcReceivedDataPacketPostProcessingParams.ofBytes e.data).receivedDataSize.toNat
  | .userApplicationStateMachine =>
    match UserApplicationStateMachineEventData.ofBytes e.data with
    | some eventData =>
      ((userApplicationStateMachineEventHandler fw.userApplication
        (encoderDrvGetEncoderPosition fw.encoder) eventData).2.map actionUpdates).sum
    | none => 0
  | _ => 0

/-- The updates that an input leads to. A received byte makes one; a test of the execution
loop that finds no event ends the loop, and `main` makes one before it is entered again. -/
def watchdogUpdates [EventQueue Q Handler] (fw : Firmware Q) : Input → Nat
  | .receivedByte _ => 1
  | .pinTransition .. => 0
  | .execute =>
    match EventQueue.current fw.scheduler with
    | some e => fw.handlerUpdates e
    | none => 1

end Firmware

structure MainLoop where
  firmware : Firmware (SchedulerParams Handler)
  watchdogUpdates : Nat

namespace MainLoop

/-- The first update comes before the first run of the execution loop. -/
def start : MainLoop := ⟨Device.start, 1⟩

def step (m : MainLoop) (i : Input) : MainLoop :=
  ⟨m.firmware.step i, m.watchdogUpdates + m.firmware.watchdogUpdates i⟩

/-- The updates leave the firmware alone. -/
theorem run_firmware (inputs : List Input) :
    (Machine.run step start inputs).firmware = Machine.run Firmware.step Device.start inputs :=
  Machine.run_simulation (R := fun (m : MainLoop) fw => m.firmware = fw) inputs rfl
    fun _ _ i h => congrArg (Firmware.step · i) h

end MainLoop

def turns (inputs : List Input) : Nat := inputs.countP fun
  | .execute => true
  | _ => false

def pinTransitions (inputs : List Input) : Nat := inputs.countP fun
  | .pinTransition .. => true
  | _ => false

namespace Controller
variable {c : Controller}

private theorem offer_length (tasks : List Task) (t : Task) :
    (offer tasks t).length ≤ tasks.length + 1 := by
  rw [offer]
  split
  · rw [List.length_append, List.length_singleton]
  · omega

private theorem offer_weight (tasks : List Task) (t : Task) :
    weight (offer tasks t) ≤ weight tasks + t.weight := by
  rw [offer]
  split
  · rw [weight_append]
    exact Nat.le_refl _
  · omega

private theorem pinTransition_load (gpio eventMask : Nat) (levelA levelB : Bool) :
    let next := c.pinTransition gpio eventMask levelA levelB
    next.tasks.length ≤ c.tasks.length + 1 ∧ weight next.tasks ≤ weight c.tasks + 1 := by
  dsimp only
  rcases c.pinTransition_tasks gpio eventMask levelA levelB with h | ⟨type, rfl | rfl, h⟩
  · rw [h]
    exact ⟨Nat.le_succ _, Nat.le_succ _⟩
  · rw [h, List.length_append, weight_append]
    exact ⟨Nat.le_refl _, Nat.le_refl _⟩
  · rw [h, List.length_append, weight_append]
    exact ⟨Nat.le_refl _, Nat.le_refl _⟩

/-- A byte pays for a fifth of a packet. -/
theorem receiveByte_load (h : c.Receiving) (b : UInt8) :
    5 * (c.receiveByte b).tasks.length + (c.receiveByte b).ipc.progress ≤
        5 * c.tasks.length + c.ipc.progress + 1 ∧
      5 * weight (c.receiveByte b).tasks + 3 * (c.receiveByte b).ipc.progress ≤
        5 * weight c.tasks + 3 * c.ipc.progress + 3 := by
  obtain ⟨r, hr⟩ := h.represents
  have hprogress := hr.step_progress b
  unfold receiveByte offerAll
  dsimp only at hprogress ⊢
  cases hput : (ipcStateMachineEventHandler c.ipc b).2 with
  | none =>
    rw [hput] at hprogress
    change _ + 5 * 0 ≤ _ at hprogress
    change 5 * c.tasks.length + _ ≤ _ ∧ 5 * weight c.tasks + _ ≤ _
    omega
  | some params =>
    rw [hput] at hprogress
    change _ + 5 * 1 ≤ _ at hprogress
    have hlength := offer_length c.tasks (.postProcessing params)
    have hweight : weight (offer c.tasks (.postProcessing params)) ≤ weight c.tasks + 3 :=
      offer_weight c.tasks (.postProcessing params)
    change 5 * (offer c.tasks (.postProcessing params)).length + _ ≤ _ ∧
      5 * weight (offer c.tasks (.postProcessing params)) + _ ≤ _
    omega

private theorem execute_load (hsaved : c.Saved) : c.execute.tasks.length ≤ c.tasks.length := by
  rcases execute_cases hsaved with ⟨_, he⟩ | ⟨params, rest, ht, he⟩ | ⟨eventData, rest, ht, hturn⟩
  · rw [he]
  · rw [he, runPostProcessing_eq ht, ht]
    dsimp only
    rw [List.length_append, List.length_cons]
    split <;> simp
  · rw [ht, List.length_cons]
    rcases hturn.tasks with htasks | htasks
    · rw [htasks]
      exact Nat.le_succ _
    · rw [htasks, List.length_append]
      exact Nat.le_refl _

end Controller

structure Loaded (fw : Firmware (SchedulerParams Handler)) : Prop where
  sound : Sound fw
  receiving : fw.controller.Receiving

private theorem start_loaded : Loaded start where
  sound := start_sound
  receiving := by
    rw [start_related.2]
    exact Controller.start_receiving

section Load
variable {fw : Firmware (SchedulerParams Handler)}

private theorem step_loaded (h : Loaded fw) (i : Input) :
    Loaded (fw.step i) ∧ (fw.step i).controller = fw.controller.step i := by
  obtain ⟨hsound, hcontroller⟩ := run_sound h.sound [i]
  change Sound (fw.step i) at hsound
  change (fw.step i).controller = fw.controller.step i at hcontroller
  refine ⟨⟨hsound, ?_⟩, hcontroller⟩
  rw [hcontroller]
  exact Controller.step_receiving h.receiving i

/-- What the pending tasks can still cost, in fifths of a turn, with the bytes of a packet
begun. -/
def Firmware.load (fw : Firmware (SchedulerParams Handler)) : Nat :=
  5 * weight fw.controller.tasks + 3 * fw.controller.ipc.progress

def Firmware.crowd (fw : Firmware (SchedulerParams Handler)) : Nat :=
  5 * fw.controller.tasks.length + fw.controller.ipc.progress

def charge (byte pin turn : Int) : Input → Int
  | .receivedByte _ => byte
  | .pinTransition .. => pin
  | .execute => turn

private theorem charge_sum (byte pin turn : Int) (inputs : List Input) :
    (inputs.map (charge byte pin turn)).sum =
      byte * (receivedBytes inputs).length + pin * pinTransitions inputs + turn * turns inputs := by
  induction inputs with
  | nil => simp [receivedBytes, pinTransitions, turns]
  | cons i rest ih =>
    rw [List.map_cons, List.sum_cons, ih]
    cases i <;> simp [charge, receivedBytes, pinTransitions, turns, Int.mul_add] <;> omega

/-- What an input adds to the load, less the updates that it leads to. -/
def loadCharge : Input → Int := charge (-2) 5 (-5)

def crowdCharge : Input → Int := charge 1 5 0

private theorem step_crowd (h : Loaded fw) (i : Input) :
    ((fw.step i).crowd : Int) ≤ fw.crowd + crowdCharge i := by
  unfold Firmware.crowd
  rw [(step_loaded h i).2]
  cases i with
  | receivedByte b =>
    have hload := (Controller.receiveByte_load h.receiving b).1
    change ((5 * (fw.controller.receiveByte b).tasks.length +
      (fw.controller.receiveByte b).ipc.progress : Nat) : Int) ≤ _
    simp only [crowdCharge, charge]
    omega
  | pinTransition gpio eventMask levelA levelB =>
    have hload := (Controller.pinTransition_load (c := fw.controller) gpio eventMask levelA levelB).1
    change ((5 * (fw.controller.pinTransition gpio eventMask levelA levelB).tasks.length +
      fw.controller.ipc.progress : Nat) : Int) ≤ _
    simp only [crowdCharge, charge]
    omega
  | execute =>
    have hload := Controller.execute_load h.sound.saved
    change ((5 * fw.controller.execute.tasks.length + fw.controller.execute.ipc.progress : Nat) :
      Int) ≤ _
    rw [Controller.execute_frame.1]
    simp only [crowdCharge, charge]
    omega

end Load

private theorem run_loaded (inputs : List Input) : Loaded
    (Machine.run Firmware.step start inputs) :=
  Machine.run_invariant inputs start_loaded fun _ i h => (step_loaded h i).1

namespace MainLoop
variable {m : MainLoop}

def balance (m : MainLoop) : Int := m.firmware.load - 5 * m.watchdogUpdates

/-- Every test of the loop uses up some of the load, or is an update. -/
theorem step_balance (h : Loaded m.firmware) (i : Input) :
    (m.step i).balance ≤ m.balance + loadCharge i := by
  have hcontroller := (step_loaded h i).2
  unfold balance step Firmware.load
  dsimp only
  rw [hcontroller]
  cases i with
  | receivedByte b =>
    have hload := (Controller.receiveByte_load h.receiving b).2
    simp only [Controller.step, Firmware.watchdogUpdates, loadCharge, charge]
    omega
  | pinTransition gpio eventMask levelA levelB =>
    have hload := (Controller.pinTransition_load (c := m.firmware.controller) gpio eventMask
      levelA levelB).2
    simp only [Controller.step, Firmware.watchdogUpdates, loadCharge, charge]
    change ((5 * weight (m.firmware.controller.pinTransition gpio eventMask levelA levelB).tasks +
      3 * m.firmware.controller.ipc.progress : Nat) : Int) - _ ≤ _
    omega
  | execute =>
    simp only [Controller.step, Firmware.watchdogUpdates, loadCharge, charge]
    rw [Controller.execute_frame.1]
    by_cases hpending : m.firmware.controller.tasks = []
    · have hnone : EventQueue.current m.firmware.scheduler = none := by
        by_contra hsome
        exact (current_isSome_iff h.sound).mp (Option.isSome_iff_ne_none.mpr hsome) hpending
      rw [hnone, Controller.execute_idle hpending]
      push_cast
      omega
    · have hless := execute_weight h.sound.saved hpending
      push_cast
      omega

private theorem turns_le (h : Loaded m.firmware) (inputs : List Input) :
    turns inputs + m.watchdogUpdates ≤ (Machine.run step m inputs).watchdogUpdates +
      weight m.firmware.controller.tasks + pinTransitions inputs + 2 := by
  have hbalance : (Machine.run step m inputs).balance ≤ m.balance + (inputs.map loadCharge).sum :=
    Machine.run_potential (P := fun m : MainLoop => Loaded m.firmware) inputs h
      (fun _ i hm => (step_loaded hm i).1) fun _ i hm => step_balance hm i
  rw [loadCharge, charge_sum] at hbalance
  obtain ⟨r, hr⟩ := h.receiving.represents
  have hprogress : m.firmware.controller.ipc.progress ≤ 4 := by
    rw [hr.progress_eq]
    exact r.progress_le
  simp only [balance, Firmware.load] at hbalance
  omega

/-- From any state of any run on, the tests of the loop outnumber the updates of the watchdog
by no more than the tasks pending there weigh, three each at most, one for every pin interrupt
since, and two for the packet begun. -/
theorem watchdog_updates (inputs more : List Input) :
    let m := Machine.run step start inputs
    turns more + m.watchdogUpdates ≤ (Machine.run step m more).watchdogUpdates +
      weight m.firmware.controller.tasks + pinTransitions more + 2 := by
  refine turns_le ?_ more
  rw [run_firmware]
  exact run_loaded inputs

end MainLoop

/-- The queue holds what is pending, one task for every pin interrupt and one for every five
bytes, whatever the loop does meanwhile: with room for these, it is never full and so
refuses nothing. -/
theorem never_full (inputs more : List Input)
    (h : 5 * ((Machine.run Firmware.step start inputs).controller.tasks.length +
      pinTransitions more) + (receivedBytes more).length + 4 < 5 * schedulerMaxQueueSize) :
    Machine.Always Firmware.step (fun fw => fw.controller.tasks.length < schedulerMaxQueueSize)
      (Machine.run Firmware.step start inputs) more := by
  have hloaded := run_loaded inputs
  generalize Machine.run Firmware.step start inputs = fw at h hloaded
  obtain ⟨r, hr⟩ := hloaded.receiving.represents
  have hprogress : fw.controller.ipc.progress ≤ 4 := by
    rw [hr.progress_eq]
    exact r.progress_le
  have hsum := charge_sum 1 5 0 more
  have hbound : (fw.crowd : Int) + (more.map crowdCharge).sum ≤ 5 * schedulerMaxQueueSize - 1 := by
    simp only [Firmware.crowd, crowdCharge]
    omega
  refine Machine.always_potential hloaded (fun _ i hfw => (step_loaded hfw i).1)
    (fun _ i hfw => step_crowd hfw i) (fun i => ?_) hbound fun last _ hcrowd => ?_
  · cases i <;> simp [crowdCharge, charge]
  · simp only [Firmware.crowd] at hcrowd
    omega

/-- A burst of forty edges and a frame. -/
theorem never_full_burst :
    let inputs : List Input := [.execute, .pinTransition encoderDrvPinZHome gpioIrqEdgeRise false false]
    let more : List Input := List.replicate 40
        (.pinTransition encoderDrvPinAAnticlockwise gpioIrqEdgeRise true false) ++
      (ipcFormat.frame [0, 2, 0]).map .receivedByte
    Machine.Always Firmware.step (fun fw => fw.controller.tasks.length < schedulerMaxQueueSize)
      (Machine.run Firmware.step start inputs) more :=
  never_full _ _ (by decide)

end ClosedLoopStepper.Device
