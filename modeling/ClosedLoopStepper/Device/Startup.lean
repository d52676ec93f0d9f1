import ClosedLoopStepper.Device.Ledger
import ClosedLoopStepper.StepperMotor.StepSpeed

/-! The start-up, one statement at a time, and the interrupts of the sources that are live
by then. Each component initialises the one queue they share. -/
namespace ClosedLoopStepper.Device
open Foundations Scheduler Ipc Encoder StepperMotor Application

/-- The statements that write a variable or set up a source of interrupts. Those on clocks,
the serial driver and pin functions do neither. -/
inductive Statement
  | schedulerParamsHead
  | schedulerParamsTail
  | schedulerParamsIsEmpty
  | stdioSetCharsAvailableCallback
  | ipcDataPacketReceivedEventHandler
  | gpioSetIrqEnabledWithCallback (gpio : Nat)
  | encoderDrvEventHandlers
  | encoderDrvEventHandling
  | stepperMotorDrvInit
  | schedulerEventPut
  deriving DecidableEq, Repr

namespace Statement

def schedulerInit : List Statement :=
  [.schedulerParamsHead, .schedulerParamsTail, .schedulerParamsIsEmpty]

def ipcInit : List Statement :=
  schedulerInit ++ [.stdioSetCharsAvailableCallback, .ipcDataPacketReceivedEventHandler]

def encoderDrvInit : List Statement :=
  schedulerInit ++
    [.gpioSetIrqEnabledWithCallback encoderDrvPinAAnticlockwise,
      .gpioSetIrqEnabledWithCallback encoderDrvPinBClockwise,
      .gpioSetIrqEnabledWithCallback encoderDrvPinZHome,
      .encoderDrvEventHandlers, .encoderDrvEventHandling]

def userApplicationInit : List Statement :=
  ipcInit ++ encoderDrvInit ++ [.stepperMotorDrvInit] ++ schedulerInit ++ [.schedulerEventPut]

end Statement

/-- The firmware during start-up: whether the receive callback is installed, the pins whose
edges interrupt, and the statements still to come. -/
structure Boot where
  firmware : Firmware (Ledger Handler)
  charsAvailable : Bool
  irqEnabled : List Nat
  remaining : List Statement

inductive BootStep
  | statement
  | interrupt (i : Input)
  deriving DecidableEq, Repr

def initialLedger : Ledger Handler := ⟨.zeroed (0, .null), 0, []⟩

namespace Boot

def initial : Boot where
  firmware := ⟨initialLedger, .initial, .initial, .initial, .initial, []⟩
  charsAvailable := false
  irqEnabled := []
  remaining := Statement.userApplicationInit

/-- The source of the interrupt has been set up; only rising edges are enabled. -/
def live (boot : Boot) : Input → Bool
  | .receivedByte _ => boot.charsAvailable
  | .pinTransition gpio eventMask _ _ =>
    boot.irqEnabled.contains gpio && eventMask == gpioIrqEdgeRise
  | .execute => false

def assign (boot : Boot)
    (f : SchedulerParams (Nat × Handler) → SchedulerParams (Nat × Handler)) : Boot :=
  let scheduler := boot.firmware.scheduler
  { boot with firmware := boot.firmware.over { scheduler with params := f scheduler.params } }

def perform (boot : Boot) : Statement → Boot
  | .schedulerParamsHead => boot.assign fun params => { params with head := 0 }
  | .schedulerParamsTail => boot.assign fun params => { params with tail := 0 }
  | .schedulerParamsIsEmpty => boot.assign fun params => { params with isEmpty := true }
  | .stdioSetCharsAvailableCallback => { boot with charsAvailable := true }
  | .ipcDataPacketReceivedEventHandler =>
    let handler := some Handler.userApplicationProcessReceivedDataPacket
    { boot with firmware := { boot.firmware with ipc := (ipcInit boot.firmware.ipc handler).1 } }
  | .gpioSetIrqEnabledWithCallback gpio =>
    { boot with irqEnabled := boot.irqEnabled ++ [gpio] }
  | .encoderDrvEventHandlers =>
    let eventHandlers : EncoderDrvEventHandlers Handler :=
      ⟨some .userApplicationEncoderStepActivity, some .userApplicationEncoderHomeActivity⟩
    { boot with
      firmware := { boot.firmware with encoder := { boot.firmware.encoder with eventHandlers } } }
  | .encoderDrvEventHandling =>
    let encoder := { boot.firmware.encoder with eventHandling := .immediate }
    { boot with firmware := { boot.firmware with encoder } }
  | .stepperMotorDrvInit =>
    { boot with firmware := { boot.firmware with stepperMotor := .initial } }
  | .schedulerEventPut => { boot with firmware := boot.firmware.putEvent (.ofType .internal) }

def stepperMotorDrvInitParams : StepperMotorDrvInitParams := ⟨.mode1_16, 2000⟩

/-- The driver accepts them, and its calls leave it as the statement does. -/
theorem perform_stepperMotorDrvInit (pwmGpioToSliceNum : Nat → Nat) (boot : Boot) :
    (boot.perform .stepperMotorDrvInit).firmware.stepperMotor =
      (stepperMotorDrvInit pwmGpioToSliceNum systemConfigCpuCoreClockFreqKhz
        stepperMotorDrvInitParams).2.foldl
        (StepperMotorDrv.call pwmGpioToSliceNum) boot.firmware.stepperMotor := by
  rw [stepperMotorDrvInit_supported (by decide), if_pos (by decide), setup_initial]
  rfl

/-- The next statement, or the whole callback of an interrupt; a source that is not live
does not interrupt. -/
def step (boot : Boot) : BootStep → Boot
  | .statement =>
    match boot.remaining with
    | s :: remaining => { boot with remaining }.perform s
    | [] => boot
  | .interrupt i =>
    if boot.live i then { boot with firmware := boot.firmware.step i } else boot

end Boot

/-- The two assignments of `scheduler_init` that can drop events find in place what they
assign. -/
def Statement.Harmless (params : SchedulerParams (Nat × Handler)) : Statement → Prop
  | .schedulerParamsHead => params.head = 0
  | .schedulerParamsIsEmpty => params.isEmpty = true
  | _ => True

instance (params : SchedulerParams (Nat × Handler)) (s : Statement) :
    Decidable (s.Harmless params) := by
  unfold Statement.Harmless
  split <;> infer_instance

namespace Boot

def Harmless (boot : Boot) : BootStep → Prop
  | .statement =>
    match boot.remaining with
    | s :: _ => s.Harmless boot.firmware.scheduler.params
    | [] => True
  | .interrupt _ => True

instance (boot : Boot) (b : BootStep) : Decidable (boot.Harmless b) := by
  unfold Harmless
  split
  · split <;> infer_instance
  · infer_instance

/-! What the three assignments of `scheduler_init` do to a queue with its tail in place. -/

section Assign
variable {params : SchedulerParams (Nat × Handler)} {pending : List (SchedulerEvent (Nat × Handler))}

/-- A head that moves drops what is pending; it was not in place, so the flag was up. -/
theorem assignHead_denotes (h : Denotes params pending) (htail : params.tail = 0)
    (hhead : params.head ≠ 0) : pending ≠ [] ∧ Denotes { params with head := 0 } [] := by
  have hcursors := (not_congr h.head_eq_tail_iff).mp (htail ▸ hhead)
  have hle := h.length_le
  have hroom : params.isEmpty = true := h.isEmpty_iff.mpr (by omega)
  refine ⟨fun hnil => hcursors (.inl (by rw [hnil, List.length_nil])), ?_⟩
  change RingBuffer.Holds schedulerMaxQueueSize params.event 0 params.tail (!params.isEmpty) []
  rw [htail, hroom]
  exact RingBuffer.Holds.empty (Nat.zero_lt_succ 49)

private theorem assignIsEmpty_denotes (h : Denotes params pending) (htail : params.tail = 0)
    (hfull : params.isEmpty = false) : pending ≠ [] ∧ Denotes { params with isEmpty := true } [] := by
  have hlength : pending.length = schedulerMaxQueueSize := h.full_iff.mp (by rw [hfull]; rfl)
  have hhead : params.head = 0 := htail ▸ h.head_eq_tail_iff.mpr (.inr hlength)
  constructor
  · rintro rfl
    cases hlength
  · change RingBuffer.Holds schedulerMaxQueueSize params.event params.head params.tail (!true) []
    rw [htail, hhead]
    exact RingBuffer.Holds.empty (Nat.zero_lt_succ 49)

end Assign

structure Unserved (l : Ledger Handler) : Prop where
  tail_eq : l.params.tail = 0
  executed_eq : l.executed = []

def Intact (l : Ledger Handler) : Prop := Unserved l ∧ ∃ pending, l.Conserves pending

def Lossy (l : Ledger Handler) : Prop := Unserved l ∧ ∃ pending ticket, l.Misses pending ticket

theorem Unserved.extends {l next : Ledger Handler}
    {pending added : List (SchedulerEvent (Nat × Handler))} (h : Unserved l)
    (hnext : l.Extends pending added next) : Unserved next :=
  ⟨hnext.tail_eq.trans h.tail_eq, hnext.executed_eq.trans h.executed_eq⟩

private theorem intact_put : PutKeeps Intact := by
  rintro l e ⟨hunserved, pending, h⟩
  obtain ⟨added, hadded⟩ := Ledger.put_extends (Ledger.Extends.refl h.denotes) e
  exact ⟨hunserved.extends hadded, _, h.extends hadded⟩

private theorem lossy_put : PutKeeps Lossy := by
  rintro l e ⟨hunserved, pending, ticket, h⟩
  obtain ⟨added, hadded⟩ := Ledger.put_extends (Ledger.Extends.refl h.denotes) e
  exact ⟨hunserved.extends hadded, _, ticket, h.extends hadded⟩

section Emptied
variable {l : Ledger Handler} {params : SchedulerParams (Nat × Handler)}

private theorem lossy_of_emptied {ticket : Nat} (h : Unserved l) (haccepted : ticket < l.accepted)
    (htail : params.tail = l.params.tail) (hdenotes : Denotes params []) :
    Lossy { l with params } := by
  refine ⟨⟨htail.trans h.tail_eq, h.executed_eq⟩, [], ticket, hdenotes, haccepted, ?_, ?_⟩
  · rw [h.executed_eq]
    exact List.not_mem_nil
  · exact List.not_mem_nil

private theorem accepted_pos {pending : List (SchedulerEvent (Nat × Handler))}
    (h : l.Conserves pending)
    (hne : pending ≠ []) : 0 < l.accepted := by
  have hlength := congrArg List.length h.conserved
  have hpos := List.length_pos_iff.mpr hne
  rw [List.length_append, List.length_map, List.length_range] at hlength
  omega

end Emptied

section Steps
variable {boot : Boot}

private theorem interrupt_keeps {I : Ledger Handler → Prop} (hput : PutKeeps I)
    (h : I boot.firmware.scheduler) (i : Input) :
    I (boot.step (.interrupt i)).firmware.scheduler := by
  simp only [step]
  split_ifs with hlive
  · refine hput.interrupt h ?_
    rintro rfl
    cases hlive
  · exact h

private theorem perform_keeps {I : Ledger Handler → Prop} (hput : PutKeeps I)
    (h : I boot.firmware.scheduler) {s : Statement} (hs : s ∉ Statement.schedulerInit) :
    I (boot.perform s).firmware.scheduler := by
  cases s with
  | schedulerParamsHead | schedulerParamsTail | schedulerParamsIsEmpty =>
    exact absurd (by decide) hs
  | schedulerEventPut => exact hput _ _ h
  | _ => exact h

private theorem assign_scheduler
    {f : SchedulerParams (Nat × Handler) → SchedulerParams (Nat × Handler)}
    (hf : f boot.firmware.scheduler.params = boot.firmware.scheduler.params) :
    (boot.assign f).firmware.scheduler = boot.firmware.scheduler := by
  change { boot.firmware.scheduler with params := f boot.firmware.scheduler.params } = _
  rw [hf]

private theorem perform_same (h : Unserved boot.firmware.scheduler) {s : Statement}
    (hs : s ∈ Statement.schedulerInit) (hc : s.Harmless boot.firmware.scheduler.params) :
    (boot.perform s).firmware.scheduler = boot.firmware.scheduler := by
  cases s with
  | schedulerParamsHead => exact assign_scheduler (by rw [← show _ = 0 from hc])
  | schedulerParamsTail => exact assign_scheduler (by rw [← h.tail_eq])
  | schedulerParamsIsEmpty => exact assign_scheduler (by rw [← show _ = true from hc])
  | _ => exact absurd hs (by simp [Statement.schedulerInit])

private theorem perform_emptied {pending : List (SchedulerEvent (Nat × Handler))}
    (h : Unserved boot.firmware.scheduler) (hdenotes : Denotes boot.firmware.scheduler.params pending)
    {s : Statement} (hc : ¬ s.Harmless boot.firmware.scheduler.params) :
    pending ≠ [] ∧ ∀ ticket < boot.firmware.scheduler.accepted,
      Lossy (boot.perform s).firmware.scheduler := by
  cases s with
  | schedulerParamsHead =>
    obtain ⟨hne, hempty⟩ := assignHead_denotes hdenotes h.tail_eq hc
    exact ⟨hne, fun _ hticket => lossy_of_emptied h hticket rfl hempty⟩
  | schedulerParamsIsEmpty =>
    obtain ⟨hne, hempty⟩ := assignIsEmpty_denotes hdenotes h.tail_eq (Bool.not_eq_true _ ▸ hc)
    exact ⟨hne, fun _ hticket => lossy_of_emptied h hticket rfl hempty⟩
  | _ => exact absurd trivial hc

private theorem perform_intact (h : Intact boot.firmware.scheduler) {s : Statement}
    (hc : s.Harmless boot.firmware.scheduler.params) :
    Intact (boot.perform s).firmware.scheduler := by
  by_cases hs : s ∈ Statement.schedulerInit
  · rw [perform_same h.1 hs hc]
    exact h
  · exact perform_keeps intact_put h hs

private theorem perform_spoils (h : Intact boot.firmware.scheduler) {s : Statement}
    (hc : ¬ s.Harmless boot.firmware.scheduler.params) :
    Lossy (boot.perform s).firmware.scheduler := by
  obtain ⟨hunserved, pending, hconserves⟩ := h
  obtain ⟨hne, hlossy⟩ := perform_emptied hunserved hconserves.denotes hc
  exact hlossy 0 (accepted_pos hconserves hne)

private theorem perform_lossy (h : Lossy boot.firmware.scheduler) (s : Statement) :
    Lossy (boot.perform s).firmware.scheduler := by
  by_cases hc : s.Harmless boot.firmware.scheduler.params
  · by_cases hs : s ∈ Statement.schedulerInit
    · rw [perform_same h.1 hs hc]
      exact h
    · exact perform_keeps lossy_put h hs
  · obtain ⟨hunserved, pending, ticket, hmisses⟩ := h
    exact (perform_emptied hunserved hmisses.denotes hc).2 ticket hmisses.accepted

end Steps

private theorem statement_cases (boot : Boot) :
    (boot.step .statement = boot ∧ boot.Harmless .statement) ∨
      ∃ (next : Boot) (s : Statement), next.firmware = boot.firmware ∧
        boot.step .statement = next.perform s ∧
        (boot.Harmless .statement ↔ s.Harmless next.firmware.scheduler.params) := by
  obtain ⟨firmware, charsAvailable, irqEnabled, remaining⟩ := boot
  cases remaining with
  | nil => exact .inl ⟨rfl, trivial⟩
  | cons s remaining =>
    exact .inr ⟨⟨firmware, charsAvailable, irqEnabled, remaining⟩, s, rfl, rfl, Iff.rfl⟩

/-- A whole start-up: everything accepted is pending as long as all steps are harmless, and
something is lost for good from the first harmful one on. -/
theorem intact_or_lossy (steps : List BootStep) :
    Machine.Meets step Harmless initial steps ∧
        Intact (Machine.run step initial steps).firmware.scheduler ∨
      ¬ Machine.Meets step Harmless initial steps ∧
        Lossy (Machine.run step initial steps).firmware.scheduler := by
  have hinitial : Intact initial.firmware.scheduler :=
    ⟨⟨rfl, rfl⟩, [], RingBuffer.Holds.empty (Nat.zero_lt_succ 49), rfl⟩
  refine Machine.meets_or_spoiled (J := fun boot : Boot => Intact boot.firmware.scheduler)
    (K := fun boot : Boot => Lossy boot.firmware.scheduler) steps hinitial ?_ ?_ ?_
  · intro boot b h hc
    cases b with
    | interrupt i => exact interrupt_keeps intact_put h i
    | statement =>
      rcases statement_cases boot with ⟨hstep, _⟩ | ⟨next, s, hnext, hstep, hiff⟩
      · rwa [hstep]
      · rw [← hnext] at h
        rw [hstep]
        exact perform_intact h (hiff.mp hc)
  · intro boot b h hc
    cases b with
    | interrupt i => exact absurd trivial hc
    | statement =>
      rcases statement_cases boot with ⟨_, hharmless⟩ | ⟨next, s, hnext, hstep, hiff⟩
      · exact absurd hharmless hc
      · rw [← hnext] at h
        rw [hstep]
        exact perform_spoils h (hiff.not.mp hc)
  · intro boot b h
    cases b with
    | interrupt i => exact interrupt_keeps lossy_put h i
    | statement =>
      rcases statement_cases boot with ⟨hstep, _⟩ | ⟨next, s, hnext, hstep, _⟩
      · rwa [hstep]
      · rw [← hnext] at h
        rw [hstep]
        exact perform_lossy h s

end Boot

/-- Start-up discards no accepted event exactly when every `scheduler_init` in it finds the
queue as it leaves it. -/
theorem startup_executes_once_iff (steps : List BootStep) :
    ExecutedOnce (Machine.run Boot.step .initial steps).firmware ↔
      Machine.Meets Boot.step Boot.Harmless .initial steps := by
  rcases Boot.intact_or_lossy steps with ⟨hmeets, _, pending, hconserves⟩ |
    ⟨hmisses, _, pending, ticket, hlost⟩
  · exact ⟨fun _ => hmeets, fun _ => executedOnce_of_conserves hconserves⟩
  · exact ⟨fun honce => absurd honce (not_executedOnce_of_misses hlost),
      fun hmeets => absurd hmeets hmisses⟩

/-- A command that arrives once the callback is installed, before the encoder's driver is
initialised: its event is accepted and dropped, and the first that is executed is the
internal event put at the end. -/
theorem startup_drops_command :
    ¬ ∀ steps, (Machine.run Boot.step .initial steps).remaining = [] →
      ExecutedOnce (Machine.run Boot.step .initial steps).firmware := by
  intro h
  let command : List BootStep :=
    [0xA5, 0x5A, 0x03, 0x00, 0x5A, 0x00, 0x5A].map fun b => .interrupt (.receivedByte b)
  have hone := h (List.replicate 5 .statement ++ command ++ List.replicate 13 .statement)
    (by decide) [.execute, .execute] (by decide) 0 (by decide)
  revert hone
  decide

def uninterrupted : List BootStep := Statement.userApplicationInit.map fun _ => .statement

/-- It ends in the state that `main` enters its loop with, and from there on the firmware
with tickets and the one without run alongside. -/
theorem uninterrupted_alongside_start (later : List Input) :
    Alongside (fun (l : Ledger Handler) (params : SchedulerParams Handler) =>
        params = l.params.erase)
      (Machine.run Firmware.step (Machine.run Boot.step .initial uninterrupted).firmware later)
      (Machine.run Firmware.step start later) := by
  have hboot : (Machine.run Boot.step .initial uninterrupted).firmware =
      .userApplicationInit initialLedger := rfl
  have hinitial : initialScheduler = initialLedger.params.erase := rfl
  rw [hboot]
  exact Machine.run_simulation later
    (userApplicationInit_alongside ledger_simulation.put hinitial)
    fun _ _ i h => step_alongside ledger_simulation h i

end ClosedLoopStepper.Device
