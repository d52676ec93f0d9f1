import ClosedLoopStepper.Device.Firmware

/-! The firmware over one queue alongside the same firmware over another. The callbacks and
the handlers only put, so a relation between the queues that puts keep is kept by all of
them, and one that also agrees on the next event is kept by whole turns of the loop. -/
namespace ClosedLoopStepper.Device
open Scheduler Ipc Encoder StepperMotor Application
variable {Q Q' : Type} [EventQueue Q Handler] [EventQueue Q' Handler] {R : Q → Q' → Prop}

def Firmware.over (fw : Firmware Q) (scheduler : Q') : Firmware Q' := { fw with scheduler }

/-- The firmwares differ in their queues alone, and these are related. -/
def Alongside (R : Q → Q' → Prop) (fw : Firmware Q) (fw' : Firmware Q') : Prop :=
  ∃ scheduler, R fw.scheduler scheduler ∧ fw' = fw.over scheduler

def PutsKeep (R : Q → Q' → Prop) : Prop :=
  ∀ q q' e, R q q' → R (EventQueue.put q e).1 (EventQueue.put q' e).1

section Puts
variable {fw : Firmware Q} {fw' : Firmware Q'}

theorem put_alongside (hput : PutsKeep R) (h : Alongside R fw fw') (e : SchedulerEvent Handler) :
    Alongside R (fw.put e) (fw'.put e) := by
  obtain ⟨q', hq, rfl⟩ := h
  exact ⟨(EventQueue.put q' e).1, hput _ _ e hq, rfl⟩

/-- The initialisation, over related queues. -/
theorem userApplicationInit_alongside (hput : PutsKeep R) {q : Q} {q' : Q'} (hq : R q q') :
    Alongside R (.userApplicationInit q) (.userApplicationInit q') :=
  put_alongside hput ⟨q', hq, rfl⟩ _

theorem perform_alongside (hput : PutsKeep R) (h : Alongside R fw fw') (a : Action) :
    Alongside R (fw.perform a) (fw'.perform a) := by
  cases a with
  | schedulerEventPut eventData => exact put_alongside hput h _
  | drive drive =>
    obtain ⟨q', hq, rfl⟩ := h
    exact ⟨q', hq, rfl⟩
  | ipcSendDataPacket dataPacket =>
    obtain ⟨q', hq, rfl⟩ := h
    exact ⟨q', hq, rfl⟩

private theorem performAll_alongside (hput : PutsKeep R) (h : Alongside R fw fw')
    (actions : List Action) :
    Alongside R (actions.foldl Firmware.perform fw) (actions.foldl Firmware.perform fw') := by
  induction actions generalizing fw fw' with
  | nil => exact h
  | cons a rest ih => exact ih (perform_alongside hput h a)

theorem call_alongside (hput : PutsKeep R) (h : Alongside R fw fw') (handler : Handler) :
    Alongside R (fw.call handler) (fw'.call handler) := by
  cases handler with
  | userApplicationEncoderStepActivity => exact put_alongside hput h _
  | userApplicationEncoderHomeActivity => exact put_alongside hput h _
  | null => exact h
  | ipcReceivedDataPacketPostProcessing => exact h
  | userApplicationProcessReceivedDataPacket => exact h
  | userApplicationStateMachine => exact h

theorem receiveByte_alongside (hput : PutsKeep R) (h : Alongside R fw fw') (b : UInt8) :
    Alongside R (fw.receiveByte b) (fw'.receiveByte b) := by
  obtain ⟨q', hq, rfl⟩ := h
  have hnext : Alongside R { fw with ipc := (ipcStateMachineEventHandler fw.ipc b).1 }
      { fw.over q' with ipc := (ipcStateMachineEventHandler fw.ipc b).1 } := ⟨q', hq, rfl⟩
  have hipc : (fw.over q').ipc = fw.ipc := rfl
  simp only [Firmware.receiveByte, hipc]
  cases (ipcStateMachineEventHandler fw.ipc b).2 with
  | none => exact hnext
  | some params => exact put_alongside hput hnext _

private theorem dispatch_alongside (hput : PutsKeep R) (h : Alongside R fw fw')
    (d : Option (Dispatch Handler)) : Alongside R (fw.dispatch d) (fw'.dispatch d) := by
  rcases d with _ | handler | handler
  · exact h
  · exact call_alongside hput h handler
  · exact put_alongside hput h _

theorem pinTransition_alongside (hput : PutsKeep R) (h : Alongside R fw fw')
    (gpio eventMask : Nat) (levelA levelB : Bool) :
    Alongside R (fw.pinTransition gpio eventMask levelA levelB)
      (fw'.pinTransition gpio eventMask levelA levelB) := by
  obtain ⟨q', hq, rfl⟩ := h
  let next := encoderDrvStepHomePinTransitionsCallback fw.encoder gpio eventMask levelA levelB
  have hnext : Alongside R { fw with encoder := next.1 } { fw.over q' with encoder := next.1 } :=
    ⟨q', hq, rfl⟩
  exact dispatch_alongside hput hnext next.2

private theorem postProcess_alongside (hput : PutsKeep R) (h : Alongside R fw fw')
    (params : IpcReceivedDataPacketPostProcessingParams) :
    Alongside R (fw.postProcess params) (fw'.postProcess params) := by
  obtain ⟨q', hq, rfl⟩ := h
  have hipc : (fw.over q').ipc = fw.ipc := rfl
  simp only [Firmware.postProcess, hipc]
  split
  · have hemit (output : Output) : Alongside R (fw.emit output) ((fw.over q').emit output) :=
      ⟨q', hq, rfl⟩
    simp only [Firmware.processReceivedDataPacket]
    split
    · exact put_alongside hput (hemit _) _
    · exact hemit _
  · exact ⟨q', hq, rfl⟩

private theorem handleEvent_alongside (hput : PutsKeep R) (h : Alongside R fw fw')
    (eventData : UserApplicationStateMachineEventData) :
    Alongside R (fw.handleEvent eventData) (fw'.handleEvent eventData) := by
  obtain ⟨q', hq, rfl⟩ := h
  let next := userApplicationStateMachineEventHandler fw.userApplication
    (encoderDrvGetEncoderPosition fw.encoder) eventData
  have hnext : Alongside R { fw with userApplication := next.1 }
      { fw.over q' with userApplication := next.1 } := ⟨q', hq, rfl⟩
  exact performAll_alongside hput hnext next.2

private theorem interrupt_alongside (hput : PutsKeep R) (h : Alongside R fw fw') {i : Input}
    (hi : i ≠ .execute) : Alongside R (fw.step i) (fw'.step i) := by
  cases i with
  | receivedByte b => exact receiveByte_alongside hput h b
  | pinTransition gpio eventMask levelA levelB =>
    exact pinTransition_alongside hput h gpio eventMask _ _
  | execute => exact absurd rfl hi

/-- Whatever handler an event calls. -/
theorem invoke_alongside (hput : PutsKeep R) (h : Alongside R fw fw')
    (e : SchedulerEvent Handler) : Alongside R (fw.invoke e) (fw'.invoke e) := by
  simp only [Firmware.invoke]
  split
  · split
    · exact h
    · exact postProcess_alongside hput h _
  · split
    · exact handleEvent_alongside hput h _
    · exact h
  · exact call_alongside hput h _

end Puts

section Keeping
variable {I : Q → Prop} {fw next : Firmware Q}

def PutKeeps (I : Q → Prop) : Prop := ∀ q e, I q → I (EventQueue.put q e).1

/-- A property of one queue is a relation that a queue has with itself: what takes a firmware
on alongside itself keeps it. -/
theorem PutKeeps.kept (hput : PutKeeps I) (h : I fw.scheduler)
    (hnext : PutsKeep (fun (q : Q) (_ : Q) => I q) →
      Alongside (fun (q : Q) (_ : Q) => I q) fw fw →
        Alongside (fun (q : Q) (_ : Q) => I q) next next) : I next.scheduler := by
  obtain ⟨_, hkept, _⟩ := hnext (fun q _ e hq => hput q e hq) ⟨fw.scheduler, h, rfl⟩
  exact hkept

/-- The callback of an interrupt only puts. -/
theorem PutKeeps.interrupt (hput : PutKeeps I) (h : I fw.scheduler) {i : Input}
    (hi : i ≠ .execute) : I (fw.step i).scheduler :=
  hput.kept h fun hkeep hself => interrupt_alongside hkeep hself hi

end Keeping

/-- One queue follows another: related queues hold the same next event, and an event that
is in the queue is not lost to a put. -/
structure QueueSimulation (R : Q → Q' → Prop) : Prop where
  put : PutsKeep R
  current : ∀ q q', R q q' → EventQueue.current q = EventQueue.current q'
  complete : ∀ q q', R q q' → (EventQueue.current q').isSome →
    R (EventQueue.complete q) (EventQueue.complete q')
  stays : ∀ q q' e, R q q' → (EventQueue.current q').isSome →
    (EventQueue.current (EventQueue.put q' e).1).isSome

section Turn
variable {fw : Firmware Q} {fw' : Firmware Q'}

theorem Alongside.current_eq (hR : QueueSimulation R) (h : Alongside R fw fw') :
    EventQueue.current fw.scheduler = EventQueue.current fw'.scheduler := by
  obtain ⟨q', hq, rfl⟩ := h
  exact hR.current _ _ hq

private theorem executeEvent_alongside (hR : QueueSimulation R) (h : Alongside R fw fw') :
    Alongside R fw.executeEvent fw'.executeEvent := by
  rw [Firmware.executeEvent, Firmware.executeEvent, h.current_eq hR]
  obtain ⟨q', hq, rfl⟩ := h
  cases he : EventQueue.current (fw.over q').scheduler with
  | none => exact ⟨q', hq, rfl⟩
  | some e =>
    -- the event that is running stays in the queue while its handler puts others
    have hsome : (EventQueue.current q').isSome = true := Option.isSome_of_mem he
    have hboth : PutsKeep fun (q : Q) (q' : Q') => R q q' ∧ (EventQueue.current q').isSome = true :=
      fun q q' e h => ⟨hR.put q q' e h.1, hR.stays q q' e h.1 h.2⟩
    have hpair : Alongside (fun (q : Q) (q' : Q') => R q q' ∧ (EventQueue.current q').isSome = true)
        fw (fw.over q') := ⟨q', ⟨hq, hsome⟩, rfl⟩
    obtain ⟨q'', ⟨hnext, hstays⟩, heq⟩ := invoke_alongside hboth hpair e
    dsimp only
    rw [heq]
    exact ⟨EventQueue.complete q'', hR.complete _ _ hnext hstays, rfl⟩

theorem step_alongside (hR : QueueSimulation R) (h : Alongside R fw fw') (i : Input) :
    Alongside R (fw.step i) (fw'.step i) := by
  cases i with
  | execute => exact executeEvent_alongside hR h
  | _ => exact interrupt_alongside hR.put h (by simp)

/-- Where the loop returns over the one queue it returns over the other. -/
theorem schedulerExecute_alongside (hR : QueueSimulation R) (h : Alongside R fw fw') {fuel : Nat}
    {last' : Firmware Q'} (hlast : fw'.schedulerExecute fuel = some last') :
    ∃ last, fw.schedulerExecute fuel = some last ∧ Alongside R last last' := by
  induction fuel generalizing fw fw' with
  | zero =>
    rw [Firmware.schedulerExecute] at hlast ⊢
    rw [h.current_eq hR]
    split at hlast
    · cases hlast
    · cases hlast
      rw [if_neg ‹_›]
      exact ⟨fw, rfl, h⟩
  | succ fuel ih =>
    rw [Firmware.schedulerExecute] at hlast ⊢
    rw [h.current_eq hR]
    split at hlast
    · rw [if_pos ‹_›]
      exact ih (executeEvent_alongside hR h) hlast
    · cases hlast
      rw [if_neg ‹_›]
      exact ⟨fw, rfl, h⟩

end Turn
end ClosedLoopStepper.Device
