import ClosedLoopStepper.Link.Dialogue
import ClosedLoopStepper.Device.RoundTrip

/-! What becomes of a command inside the device. Only a packet or the command made of it
can start an execution, so a turn of the loop is told by whether one of these is its task. -/
namespace ClosedLoopStepper.Link
open Foundations Foundations.Framing Scheduler Ipc Encoder Application Device

def isRequest : Task → Bool
  | .postProcessing _ => true
  | .stateMachine eventData => eventData.type = .processCmdRequest

def requests (tasks : List Task) : List Task := tasks.filter isRequest

theorem requests_append (a b : List Task) : requests (a ++ b) = requests a ++ requests b :=
  List.filter_append a b

/-- Nothing is put out that the commander or the packet handler would see. -/
def Quietly (c next : Controller) : Prop :=
  ∃ added, next.log = c.log ++ added ∧ added.filterMap Output.response = [] ∧ delivered added = []

/-- The requests that are pending, the receiver that the parser stands for, and the angle
of the command in execution. -/
structure Stage (c : Controller) (r : Receiver) (pending : List Task) (executed : Option Nat) :
    Prop where
  saved : c.Saved
  represents : Represents c.ipc r
  requests_eq : requests c.tasks = pending
  executes : ∀ angle, executed = some angle → c.userApplication = executing (commandOf angle)
  rests : executed = none → c.state ≠ .execution

variable {c : Controller} {r : Receiver} {pending : List Task} {executed : Option Nat}

theorem Quietly.refl (c : Controller) : Quietly c c := ⟨[], (List.append_nil _).symm, rfl, rfl⟩

theorem Quietly.of_log {next : Controller} (h : next.log = c.log) : Quietly c next :=
  ⟨[], h.trans (List.append_nil _).symm, rfl, rfl⟩

theorem Quietly.delivered_eq {next : Controller} (h : Quietly c next) :
    delivered next.log = delivered c.log := by
  obtain ⟨added, hlog, _, hdelivered⟩ := h
  rw [hlog, Controller.delivered_append, hdelivered, List.append_nil]

theorem Quietly.sent_eq {next : Controller} (h : Quietly c next) :
    (next.log.drop c.log.length).filterMap Output.response = [] := by
  obtain ⟨added, hlog, hresponse, _⟩ := h
  rw [hlog, List.drop_left, hresponse]

/-- A pin interrupt makes no request. -/
theorem Stage.pinTransition (h : Stage c r pending executed) (gpio eventMask : Nat)
    (levelA levelB : Bool) :
    Stage (c.pinTransition gpio eventMask levelA levelB) r pending executed ∧
      Quietly c (c.pinTransition gpio eventMask levelA levelB) := by
  refine ⟨⟨h.saved, h.represents, ?_, h.executes, h.rests⟩, .of_log rfl⟩
  rw [← h.requests_eq]
  rcases c.pinTransition_tasks gpio eventMask levelA levelB with htasks | ⟨type, rfl | rfl, htasks⟩
  · rw [htasks]
  · rw [htasks, requests_append]
    exact List.append_nil _
  · rw [htasks, requests_append]
    exact List.append_nil _

/-- A byte that completes no packet makes no request. -/
theorem Stage.silentByte (h : Stage c r pending executed) {b : UInt8}
    (hs : (r.step ipcFormat b).2 = none) :
    Stage (c.receiveByte b) (r.step ipcFormat b).1 pending executed ∧
      Quietly c (c.receiveByte b) := by
  refine ⟨⟨h.saved, (step_follows h.represents b).1, ?_, h.executes, h.rests⟩, .of_log rfl⟩
  rw [Controller.silent_byte h.represents hs]
  exact h.requests_eq

/-- A byte that completes one makes its request, unless the queue is full. -/
theorem Stage.packetByte (h : Stage c r [] executed) {b : UInt8} {packet : Packet}
    (hs : (r.step ipcFormat b).2 = some packet) :
    let params := postProcessingParams packet
    (Stage (c.receiveByte b) (r.step ipcFormat b).1 [.postProcessing params] executed ∧
        (c.receiveByte b).ipc.received packet.payload.length = packet.payload ∨
      ¬ c.tasks.length < schedulerMaxQueueSize ∧
        Stage (c.receiveByte b) (r.step ipcFormat b).1 [] executed) ∧
      Quietly c (c.receiveByte b) := by
  intro params
  obtain ⟨hnext, hout, hpacket⟩ := step_follows h.represents b
  rw [hs] at hout hpacket
  have htasks : (c.receiveByte b).tasks = offer c.tasks (.postProcessing params) := by
    rw [Controller.receiveByte, hout]
    rfl
  refine ⟨?_, .of_log rfl⟩
  by_cases hroom : c.tasks.length < schedulerMaxQueueSize
  · left
    refine ⟨⟨h.saved, hnext, ?_, h.executes, h.rests⟩, (hpacket packet rfl).2⟩
    rw [htasks, offer, if_pos hroom, requests_append, h.requests_eq]
    rfl
  · right
    refine ⟨hroom, h.saved, hnext, ?_, h.executes, h.rests⟩
    rw [htasks, offer, if_neg hroom, h.requests_eq]

section Turns
variable {eventData : UserApplicationStateMachineEventData} {rest : List Task} {next : Controller}

/-- The internal event, the only one the state machine puts, is no request. -/
theorem turn_requests (h : Turn c eventData rest next) : requests next.tasks = requests rest := by
  rcases h.tasks with htasks | htasks
  · rw [htasks]
  · rw [htasks, requests_append]
    exact List.append_nil _

private theorem turn_ipc (h : Turn c eventData rest next) : next.ipc = c.ipc := by
  cases h <;> rfl

/-- Only the turn that finishes an execution sends anything. -/
theorem turn_quietly (hfinish : ¬ Finishes c.userApplication c.position eventData)
    (h : Turn c eventData rest next) : Quietly c next := by
  cases h with
  | calibrate => exact ⟨_, rfl, rfl, rfl⟩
  | home => exact ⟨_, rfl, rfl, rfl⟩
  | immediate => exact .of_log rfl
  | anticlockwise => exact ⟨_, rfl, rfl, rfl⟩
  | clockwise => exact ⟨_, rfl, rfl, rfl⟩
  | finish hfinished => exact absurd hfinished hfinish
  | ignore => exact .of_log rfl

/-- An execution starts with a command that the ready state accepts. -/
theorem turn_rests (hstate : c.state ≠ .execution) (haccept : ¬ Accepts c.userApplication eventData)
    (h : Turn c eventData rest next) : next.state ≠ .execution := by
  cases h with
  | calibrate => exact hstate
  | home => nofun
  | immediate ha => exact absurd ha haccept
  | anticlockwise ha => exact absurd ha haccept
  | clockwise ha => exact absurd ha haccept
  | finish => nofun
  | ignore => exact hstate

theorem request_of_accepts (h : Accepts c.userApplication eventData) :
    isRequest (.stateMachine eventData) = true := decide_eq_true h.2.1

private theorem Stage.otherTurn (h : Stage c r pending none)
    (ht : c.tasks = .stateMachine eventData :: rest)
    (hother : isRequest (.stateMachine eventData) = false) (hturn : Turn c eventData rest next) :
    Stage next r pending none ∧ Quietly c next := by
  have hfinish : ¬ Finishes c.userApplication c.position eventData := fun hf => h.rests rfl hf.1
  have haccept : ¬ Accepts c.userApplication eventData := fun ha => by
    rw [request_of_accepts ha] at hother
    cases hother
  refine ⟨⟨hturn.saved h.saved, ?_, ?_, nofun, fun _ => turn_rests (h.rests rfl) haccept hturn⟩,
    turn_quietly hfinish hturn⟩
  · rw [turn_ipc hturn]
    exact h.represents
  · rw [turn_requests hturn, ← h.requests_eq, ht, requests, requests, List.filter_cons, hother]
    rfl

end Turns

/-- The first task is the first request, or there is none among it. -/
theorem Stage.head {t : Task} {rest : List Task} (h : Stage c r pending executed)
    (ht : c.tasks = t :: rest) :
    isRequest t = true ∧ pending = t :: requests rest ∨
      isRequest t = false ∧ pending = requests rest := by
  have heq := h.requests_eq
  rw [ht, requests, List.filter_cons] at heq
  cases hrequest : isRequest t with
  | true =>
    rw [if_pos hrequest] at heq
    exact .inl ⟨rfl, heq.symm⟩
  | false =>
    rw [hrequest] at heq
    exact .inr ⟨rfl, heq.symm⟩

/-- With no request pending and no command in execution a turn changes nothing here. -/
theorem Stage.executeNone (h : Stage c r [] none) :
    Stage c.execute r [] none ∧ Quietly c c.execute := by
  rcases execute_cases h.saved with ⟨_, he⟩ | ⟨params, rest, ht, _⟩ | ⟨eventData, rest, ht, hturn⟩
  · rw [he]
    exact ⟨h, .refl c⟩
  · rcases h.head ht with ⟨_, hnil⟩ | ⟨hfalse, _⟩
    · cases hnil
    · cases hfalse
  · rcases h.head ht with ⟨_, hnil⟩ | ⟨hother, _⟩
    · cases hnil
    · exact h.otherTurn ht hother hturn

/-- A command in execution stays there until the turn that sends its response, at its
position. -/
theorem Stage.executeExecuting {angle : Nat} (hangle : angle ≤ 359)
    (h : Stage c r [] (some angle)) :
    Stage c.execute r [] (some angle) ∧ Quietly c c.execute ∨
      Stage c.execute r [] none ∧ c.position = angle / 2 ∧
        c.execute.log = c.log ++ [.drive .stop, .transmitted (angleFrame .ok (2 * (angle / 2)))] := by
  have happ : c.userApplication = _ := (h.executes angle rfl).trans (executing_commandOf hangle)
  have hstate : c.userApplication.userApplicationStateMachineState = .execution := by rw [happ]
  rcases execute_cases h.saved with ⟨_, he⟩ | ⟨params, rest, ht, _⟩ | ⟨eventData, rest, ht, hturn⟩
  · rw [he]
    exact .inl ⟨h, .refl c⟩
  · rcases h.head ht with ⟨_, hnil⟩ | ⟨hfalse, _⟩
    · cases hnil
    · cases hfalse
  · have hnone : requests c.execute.tasks = [] := by
      rw [turn_requests hturn]
      rcases h.head ht with ⟨_, hnil⟩ | ⟨_, hrest⟩
      · cases hnil
      · exact hrest.symm
    have hsaved := hturn.saved h.saved
    have hipc := turn_ipc hturn
    generalize c.execute = next at hturn hnone hsaved hipc
    have hrep : Represents next.ipc r := by
      rw [hipc]
      exact h.represents
    cases hturn with
    | finish hfinish =>
      right
      refine ⟨⟨hsaved, hrep, hnone, nofun, fun _ => nofun⟩, ?_, ?_⟩
      · obtain ⟨_, _, hposition | hstatus⟩ := hfinish
        · rw [happ] at hposition
          exact hposition.symm
        · rw [happ] at hstatus
          exact absurd rfl hstatus
      · rw [responseFrame_eq, Controller.params, happ]
    | ignore => exact .inl ⟨⟨hsaved, hrep, hnone, h.executes, h.rests⟩, .of_log rfl⟩
    | calibrate hcalibration => cases hcalibration.symm.trans hstate
    | home hcalibration => cases hcalibration.symm.trans hstate
    | immediate haccept => cases haccept.1.symm.trans hstate
    | anticlockwise haccept => cases haccept.1.symm.trans hstate
    | clockwise haccept => cases haccept.1.symm.trans hstate

/-- A packet waits for its turn, which gives it to the application, and makes its command
unless it is corrupted or the queue is full. -/
theorem Stage.executePacket {params : IpcReceivedDataPacketPostProcessingParams}
    (h : Stage c r [.postProcessing params] none) :
    Stage c.execute r [.postProcessing params] none ∧ Quietly c c.execute ∨
      let given := delivery ⟨c.ipc.received params.receivedDataSize.toNat, params.expectedDataCrc⟩
      Stage c.execute r
          (if given.1 = .ok ∧ c.tasks.length < schedulerMaxQueueSize then [c.commandTask] else [])
          none ∧
        c.execute.log = c.log ++ [.received given.1 given.2] := by
  rcases execute_cases h.saved with ⟨hnil, _⟩ | ⟨params', rest, ht, he⟩ | ⟨eventData, rest, ht, hturn⟩
  · have heq := h.requests_eq
    rw [hnil] at heq
    cases heq
  · rcases h.head ht with ⟨_, hpending⟩ | ⟨hfalse, _⟩
    · obtain ⟨hparams, hrest⟩ := List.cons.inj hpending
      cases hparams
      right
      rw [he, runPostProcessing_eq ht]
      refine ⟨⟨h.saved, h.represents, ?_, nofun, h.rests⟩, rfl⟩
      change requests (rest ++ if (delivery ⟨c.ipc.received params.receivedDataSize.toNat,
        params.expectedDataCrc⟩).1 = .ok ∧ c.tasks.length < schedulerMaxQueueSize then
          [c.commandTask] else []) = _
      rw [requests_append, ← hrest, List.nil_append]
      split <;> rfl
    · cases hfalse
  · rcases h.head ht with ⟨_, hpending⟩ | ⟨hother, _⟩
    · cases (List.cons.inj hpending).1
    · exact .inl (h.otherTurn ht hother hturn)

/-- A command waits for its turn, which executes it if the application is ready. -/
theorem Stage.executeCommand {angle : Nat}
    (h : Stage c r [.stateMachine ⟨.processCmdRequest, commandOf angle⟩] none) :
    Quietly c c.execute ∧
      (Stage c.execute r [.stateMachine ⟨.processCmdRequest, commandOf angle⟩] none ∨
        c.state = .ready ∧ Stage c.execute r [] (some angle) ∨
        c.state ≠ .ready ∧ Stage c.execute r [] none) := by
  rcases execute_cases h.saved with ⟨hnil, _⟩ | ⟨params, rest, ht, _⟩ | ⟨eventData, rest, ht, hturn⟩
  · have heq := h.requests_eq
    rw [hnil] at heq
    cases heq
  · rcases h.head ht with ⟨_, hpending⟩ | ⟨hfalse, _⟩
    · cases (List.cons.inj hpending).1
    · cases hfalse
  · have hfinish : ¬ Finishes c.userApplication c.position eventData := fun hf => h.rests rfl hf.1
    refine ⟨turn_quietly hfinish hturn, ?_⟩
    rcases h.head ht with ⟨_, hpending⟩ | ⟨hother, _⟩
    · obtain ⟨hcommand, hrest⟩ := List.cons.inj hpending
      cases hcommand
      have hnone : requests c.execute.tasks = [] := (turn_requests hturn).trans hrest.symm
      have hrep : Represents c.execute.ipc r := by
        rw [turn_ipc hturn]
        exact h.represents
      by_cases hready : c.state = .ready
      · have haccept : Accepts c.userApplication ⟨.processCmdRequest, commandOf angle⟩ :=
          ⟨hready, rfl, rfl⟩
        refine .inr (.inl ⟨hready, hturn.saved h.saved, hrep, hnone, ?_, nofun⟩)
        intro angle' heq
        cases heq
        exact (hturn.accepted haccept).1
      · have haccept : ¬ Accepts c.userApplication ⟨.processCmdRequest, commandOf angle⟩ :=
          fun ha => hready ha.1
        exact .inr (.inr ⟨hready, hturn.saved h.saved, hrep, hnone, nofun,
          fun _ => turn_rests (h.rests rfl) haccept hturn⟩)
    · exact .inl (h.otherTurn ht hother hturn).1

end ClosedLoopStepper.Link
