import ClosedLoopStepper.Common.CriticalSections
import ClosedLoopStepper.Foundations.Sections
import ClosedLoopStepper.Encoder.Position

/-! The encoder position one statement at a time, with the driver's sections preempted
wherever interrupts are enabled. All contexts share the position and the saved mask; the
position is read outside any section. -/
namespace ClosedLoopStepper.Encoder
open Foundations Common
variable {H : Type}

/-- What a critical section of the program does to the position; those of the scheduler
do nothing to it. -/
inductive PositionSection
  | increment | decrement | home
  | set (encoderPosition : UInt8)
  | elsewhere
  deriving DecidableEq, Repr

namespace PositionSection

/-- The statements between disabling and enabling the interrupts. The increment loads the
position once to compare it and once to add to it. -/
def body : PositionSection → Body Nat
  | increment => .load fun position =>
    if position = encoderDrvEncoderPositionHigherBound then
      .store encoderDrvEncoderPositionLowerBound .done
    else .load fun position => .store ((position + 1) % 256) .done
  | decrement => .load fun position =>
    if position = encoderDrvEncoderPositionLowerBound then
      .store encoderDrvEncoderPositionHigherBound .done
    else .load fun position => .store ((position + 255) % 256) .done
  | home => .store 0 .done
  | set encoderPosition => .store encoderPosition.toNat .done
  | elsewhere => .done

def begins : PositionSection → Bool
  | set encoderPosition => encoderDrvIsEncoderPositionValid encoderPosition.toNat
  | _ => true

def apply : PositionSection → Nat → Nat
  | increment => encoderDrvIncrementEncoderPosition
  | decrement => encoderDrvDecrementEncoderPosition
  | home => fun _ => 0
  | set encoderPosition => fun _ => encoderPosition.toNat
  | elsewhere => id

private theorem run_body (op : PositionSection) (position : Nat) :
    op.body.run position = op.apply position := by
  cases op with
  | increment =>
    simp only [body, Body.run, apply, encoderDrvIncrementEncoderPosition]
    split <;> rfl
  | decrement =>
    simp only [body, Body.run, apply, encoderDrvDecrementEncoderPosition]
    split <;> rfl
  | home => rfl
  | set encoderPosition => rfl
  | elsewhere => rfl

/-- A section that is begun at a valid position passes through valid ones only. -/
theorem passes_body {op : PositionSection} (h : op.begins = true) {position : Nat}
    (hvalid : position < 180) : op.body.Passes (· < 180) position := by
  cases op with
  | increment =>
    refine ⟨hvalid, ?_⟩
    by_cases hbound : position = encoderDrvEncoderPositionHigherBound
    · simp only [if_pos hbound]
      exact ⟨hvalid, Nat.zero_lt_succ 179⟩
    · simp only [if_neg hbound]
      have hne : position ≠ 179 := hbound
      exact ⟨hvalid, hvalid, show (position + 1) % 256 < 180 by omega⟩
  | decrement =>
    refine ⟨hvalid, ?_⟩
    by_cases hbound : position = encoderDrvEncoderPositionLowerBound
    · simp only [if_pos hbound]
      exact ⟨hvalid, Nat.lt_succ_self 179⟩
    · simp only [if_neg hbound]
      have hne : position ≠ 0 := hbound
      exact ⟨hvalid, hvalid, show (position + 255) % 256 < 180 by omega⟩
  | home => exact ⟨hvalid, Nat.zero_lt_succ 179⟩
  | set encoderPosition => exact ⟨hvalid, (valid_iff _).mp h⟩
  | elsewhere => exact hvalid

end PositionSection

structure PositionContext where
  context : Context
  operation : PositionSection
  body : Body Nat

namespace PositionContext

def start : PositionContext := ⟨.start, .elsewhere, .done⟩

/-- Until it is inside, all of its section is still to run. -/
structure Fresh (c : PositionContext) : Prop where
  begins : c.operation.begins = true
  body_eq : c.context.point ≠ .outside → c.context.point ≠ .inside → c.body = c.operation.body

end PositionContext

/-- `finished` are the sections that are over, in this order. A read is recorded with how
many of them were over. -/
structure PreemptedPosition where
  interrupts : Interrupts
  running : PositionContext
  preempted : List PositionContext
  encoderPosition : Nat
  finished : List PositionSection
  reads : List (Nat × Nat)

inductive PositionAction
  | preempt
  | handlerReturn
  | disableInterrupts (operation : PositionSection)
  | advance
  | getEncoderPosition

namespace PreemptedPosition

def start (saved : Bool) : PreemptedPosition := ⟨⟨false, saved⟩, .start, [], 0, [], []⟩

def core (s : PreemptedPosition) : Core :=
  ⟨s.interrupts, s.running.context, s.preempted.map (·.context)⟩

def advanceCore (s : PreemptedPosition) : PreemptedPosition :=
  { s with
    interrupts := s.core.advance.interrupts
    running := { s.running with context := s.core.advance.running } }

def advanceBody (s : PreemptedPosition) : PreemptedPosition :=
  let next := s.running.body.step s.encoderPosition
  { s with running := { s.running with body := next.1 }, encoderPosition := next.2 }

def advance (s : PreemptedPosition) : PreemptedPosition :=
  match s.running.context.point with
  | .inside =>
    if s.running.body.isDone then
      { s.advanceCore with finished := s.finished ++ [s.running.operation] }
    else s.advanceBody
  | _ => s.advanceCore

def step (s : PreemptedPosition) : PositionAction → PreemptedPosition
  | .preempt =>
    if s.interrupts.primask then s
    else { s with running := .start, preempted := s.running :: s.preempted }
  | .handlerReturn =>
    match s.running.context.point, s.preempted with
    | .outside, c :: rest => { s with running := c, preempted := rest }
    | _, _ => s
  | .disableInterrupts operation =>
    match s.running.context.point with
    | .outside =>
      if operation.begins then
        { s with
          running := ⟨{ s.running.context with
            point := .readPrimask, before := s.interrupts.primask }, operation, operation.body⟩ }
      else s
    | _ => s
  | .advance => s.advance
  | .getEncoderPosition =>
    match s.running.context.point with
    | .outside => { s with reads := s.reads ++ [(s.finished.length, s.encoderPosition)] }
    | _ => s

def settled (finished : List PositionSection) : Nat := inOrder PositionSection.apply 0 finished

/-- The mask is coherent; the position is that of the sections that are over, or the rest of
the running section makes it that of one more. -/
structure Linear (s : PreemptedPosition) : Prop where
  coherent : s.core.Coherent
  begun : ∀ op ∈ s.finished, op.begins = true
  running : s.running.Fresh
  preempted : ∀ c ∈ s.preempted, c.Fresh
  between : s.running.context.point ≠ .inside → s.encoderPosition = settled s.finished
  within : s.running.context.point = .inside →
    Owned PositionSection.apply 0 s.finished s.running.operation s.running.body s.encoderPosition ∧
      s.running.body.Passes (· < 180) s.encoderPosition
  reads : ∀ r ∈ s.reads, r.1 ≤ s.finished.length ∧ r.2 = settled (s.finished.take r.1)

variable {s : PreemptedPosition}

private theorem settled_lt {finished : List PositionSection}
    (h : ∀ op ∈ finished, op.begins = true) :
    settled finished < 180 :=
  inOrder_invariant (P := (· < 180)) (by decide) fun op hop position hvalid => by
    rw [← op.run_body]
    exact (PositionSection.passes_body (h op hop) hvalid).run

private theorem core_step (s : PreemptedPosition) (action : PositionAction) :
    (s.step action).core = s.core ∨ ∃ coreAction, (s.step action).core = s.core.step coreAction := by
  obtain ⟨interrupts, running, preempted, encoderPosition, finished, reads⟩ := s
  cases action with
  | preempt =>
    refine .inr ⟨.preempt, ?_⟩
    cases hmask : interrupts.primask <;> simp [step, core, Core.step, hmask, PositionContext.start]
  | handlerReturn =>
    refine .inr ⟨.handlerReturn, ?_⟩
    cases hp : running.context.point <;> cases preempted <;> simp [step, core, Core.step, hp]
  | disableInterrupts operation =>
    cases hbegins : operation.begins with
    | false =>
      refine .inl ?_
      cases hp : running.context.point <;> simp [step, hp, hbegins]
    | true =>
      refine .inr ⟨.disableInterrupts, ?_⟩
      cases hp : running.context.point <;> simp [step, core, Core.step, hp, hbegins]
  | advance =>
    by_cases hbody : running.context.point = .inside ∧ running.body.isDone = false
    · refine .inl ?_
      simp [step, advance, advanceBody, core, hbody.1, hbody.2]
    · refine .inr ⟨.advance, ?_⟩
      cases hp : running.context.point with
      | inside =>
        have hdone : running.body.isDone = true := by simpa [hp] using hbody
        simp [step, advance, advanceCore, core, Core.step, Core.advance, hp, hdone]
      | _ => simp [step, advance, advanceCore, core, Core.step, Core.advance, hp]
  | getEncoderPosition =>
    refine .inl ?_
    cases hp : running.context.point <;> simp [step, core, hp]

private theorem coherent_step (h : s.core.Coherent) (action : PositionAction) :
    (s.step action).core.Coherent := by
  rcases core_step s action with he | ⟨coreAction, he⟩
  · rwa [he]
  · rw [he]
    exact h.step coreAction

private theorem start_linear (saved : Bool) : Linear (start saved) where
  coherent := Core.start_coherent saved
  begun := nofun
  running := ⟨rfl, fun hne => absurd rfl hne⟩
  preempted := nofun
  between _ := rfl
  within := nofun
  reads := nofun

theorem Linear.preempt (h : Linear s) : Linear (s.step .preempt) := by
  have hcoherent := coherent_step h.coherent .preempt
  unfold step at hcoherent ⊢
  dsimp only at hcoherent ⊢
  split
  · exact h
  · rename_i hclear
    -- interrupts are enabled, so the preempted context is in none of its sections
    have hout : ¬ s.core.running.InSection := h.coherent.primask_iff.not.mp hclear
    have hpoint : s.running.context.point ≠ .inside := fun hp => hout (.inr hp)
    rw [if_neg hclear] at hcoherent
    exact ⟨hcoherent, h.begun, ⟨rfl, fun hne => absurd rfl hne⟩,
      List.forall_mem_cons.mpr ⟨h.running, h.preempted⟩, fun _ => h.between hpoint, nofun, h.reads⟩

theorem Linear.handlerReturn (h : Linear s) : Linear (s.step .handlerReturn) := by
  have hcoherent := coherent_step h.coherent .handlerReturn
  unfold step at hcoherent ⊢
  dsimp only at hcoherent ⊢
  split
  · rename_i c rest hpoint hpreempted
    have hfresh := h.preempted
    rw [hpreempted, List.forall_mem_cons] at hfresh
    have hsuspended := h.coherent.preempted c.context
      (by rw [core, hpreempted]; exact List.mem_cons_self)
    have hc : c.context.point ≠ .inside := fun hp => hsuspended.not_inSection (.inr hp)
    simp only [hpoint, hpreempted] at hcoherent
    exact ⟨hcoherent, h.begun, hfresh.1, hfresh.2, fun _ => h.between (by rw [hpoint]; nofun),
      fun hp => absurd hp hc, h.reads⟩
  · exact h

theorem Linear.disableInterrupts (h : Linear s) (operation : PositionSection) :
    Linear (s.step (.disableInterrupts operation)) := by
  have hcoherent := coherent_step h.coherent (.disableInterrupts operation)
  unfold step at hcoherent ⊢
  dsimp only at hcoherent ⊢
  split
  · rename_i hpoint
    split
    · rename_i hbegins
      simp only [hpoint, if_pos hbegins] at hcoherent
      exact ⟨hcoherent, h.begun, ⟨hbegins, fun _ _ => rfl⟩, h.preempted,
        fun _ => h.between (by rw [hpoint]; nofun), nofun, h.reads⟩
    · exact h
  · exact h

private theorem advanceCore_point (s : PreemptedPosition) :
    s.advanceCore.running.context.point = match s.running.context.point with
      | .outside | .inside => .outside
      | .readPrimask => .setPrimask
      | .setPrimask => .saveStatus
      | .saveStatus => .inside := by
  simp only [advanceCore, Core.advance, core]
  cases hp : s.running.context.point <;> simp [hp]

private theorem Linear.leave (h : Linear s) (hpoint : s.running.context.point = .inside)
    (hdone : s.running.body.isDone = true) : Linear (s.step .advance) := by
  have hcoherent := coherent_step h.coherent .advance
  have hnext : s.step .advance =
      { s.advanceCore with finished := s.finished ++ [s.running.operation] } := by
    simp only [step, advance, hpoint, hdone, if_true]
  have houtside : s.advanceCore.running.context.point = .outside := by
    rw [advanceCore_point, hpoint]
  rw [hnext] at hcoherent ⊢
  refine ⟨hcoherent, ?_, ⟨h.running.begins, fun hne => absurd houtside hne⟩, h.preempted,
    fun _ => (h.within hpoint).1.finish hdone, fun hp => ?_, fun r hr => ?_⟩
  · intro op hop
    rcases List.mem_append.mp hop with hbefore | hlast
    · exact h.begun op hbefore
    · rw [List.mem_singleton.mp hlast]
      exact h.running.begins
  · cases houtside.symm.trans hp
  · obtain ⟨hle, hvalue⟩ := h.reads r hr
    refine ⟨?_, ?_⟩
    · rw [List.length_append]
      exact Nat.le_add_right_of_le hle
    · rw [List.take_append_of_le_length hle]
      exact hvalue

theorem Linear.inside (h : Linear s) (hpoint : s.running.context.point = .inside)
    (hdone : s.running.body.isDone = false) : Linear (s.step .advance) := by
  have hcoherent := coherent_step h.coherent .advance
  have hnext : s.step .advance = s.advanceBody := by
    simp [step, advance, hpoint, hdone]
  obtain ⟨howned, hpasses⟩ := h.within hpoint
  rw [hnext] at hcoherent ⊢
  exact ⟨hcoherent, h.begun, ⟨h.running.begins, fun _ hp => absurd hpoint hp⟩, h.preempted,
    fun hp => absurd hpoint hp, fun _ => ⟨howned.step, hpasses.step⟩, h.reads⟩

/-- The statements of disabling leave the position; after the last the section is inside. -/
theorem Linear.enter (h : Linear s) (hpoint : s.running.context.point ≠ .inside) :
    Linear (s.step .advance) := by
  have hcoherent := coherent_step h.coherent .advance
  have hnext : s.step .advance = s.advanceCore := by
    cases hp : s.running.context.point with
    | inside => exact absurd hp hpoint
    | _ => simp [step, advance, hp]
  have hposition := h.between hpoint
  rw [hnext] at hcoherent ⊢
  refine ⟨hcoherent, h.begun, ⟨h.running.begins, ?_⟩, h.preempted, fun _ => hposition, ?_, h.reads⟩
  · intro hout hin
    refine h.running.body_eq (fun hp => hout ?_) hpoint
    rw [advanceCore_point, hp]
  · intro hin
    rw [advanceCore_point] at hin
    have hsave : s.running.context.point = .saveStatus := by
      cases hp : s.running.context.point <;> simp [hp] at hin ⊢
    have hbody : s.running.body = s.running.operation.body :=
      h.running.body_eq (by rw [hsave]; nofun) hpoint
    have hvalid := settled_lt h.begun
    change Owned _ _ _ _ s.running.body s.encoderPosition ∧
      s.running.body.Passes _ s.encoderPosition
    rw [hbody]
    refine ⟨Owned.begin hposition s.running.operation.run_body, ?_⟩
    rw [hposition]
    exact PositionSection.passes_body h.running.begins hvalid

private theorem Linear.getEncoderPosition (h : Linear s) : Linear (s.step .getEncoderPosition) := by
  unfold step
  dsimp only
  split
  · rename_i hpoint
    refine ⟨h.coherent, h.begun, h.running, h.preempted, h.between, h.within, fun r hr => ?_⟩
    rcases List.mem_append.mp hr with hbefore | hlast
    · exact h.reads r hbefore
    · rw [List.mem_singleton.mp hlast]
      refine ⟨Nat.le_refl _, ?_⟩
      rw [List.take_length]
      exact h.between (by rw [hpoint]; nofun)
  · exact h

theorem Linear.step (h : Linear s) (action : PositionAction) : Linear (s.step action) := by
  cases action with
  | preempt => exact h.preempt
  | handlerReturn => exact h.handlerReturn
  | disableInterrupts operation => exact h.disableInterrupts operation
  | advance =>
    by_cases hpoint : s.running.context.point = .inside
    · cases hdone : s.running.body.isDone with
      | true => exact h.leave hpoint hdone
      | false => exact h.inside hpoint hdone
    · exact h.enter hpoint
  | getEncoderPosition => exact h.getEncoderPosition

private theorem run_inside (s : PreemptedPosition) (hpoint : s.running.context.point = .inside) :
    ∃ n, let last := Machine.run step s (List.replicate n .advance)
      last.running.context.point = .outside ∧
        last.encoderPosition = s.running.body.run s.encoderPosition := by
  obtain ⟨interrupts, ⟨⟨point, status, before⟩, operation, body⟩, preempted, position, finished,
    reads⟩ := s
  cases hpoint
  induction body generalizing position with
  | done => exact ⟨1, rfl, rfl⟩
  | load next ih =>
    obtain ⟨n, hlast⟩ := ih position position
    exact ⟨n + 1, hlast⟩
  | store value next ih =>
    obtain ⟨n, hlast⟩ := ih value
    exact ⟨n + 1, hlast⟩

private theorem run_section (s : PreemptedPosition) (hpoint : s.running.context.point = .outside)
    {op : PositionSection} (hbegins : op.begins = true) :
    ∃ actions, let last := Machine.run step s actions
      last.running.context.point = .outside ∧
        last.encoderPosition = op.apply s.encoderPosition := by
  obtain ⟨interrupts, ⟨⟨point, status, before⟩, operation, body⟩, preempted, position, finished,
    reads⟩ := s
  cases hpoint
  let entered := Machine.run step ⟨interrupts, ⟨⟨.outside, status, before⟩, operation, body⟩,
    preempted, position, finished, reads⟩ [.disableInterrupts op, .advance, .advance, .advance]
  have hentered : entered.running.context.point = .inside ∧ entered.running.body = op.body ∧
      entered.encoderPosition = position := by
    simp [entered, step, hbegins, advance, advanceCore, core, Core.advance]
  obtain ⟨n, hout, hlast⟩ := run_inside entered hentered.1
  refine ⟨[.disableInterrupts op, .advance, .advance, .advance] ++ List.replicate n .advance, ?_⟩
  rw [Machine.run_append]
  exact ⟨hout, by rw [hlast, hentered.2.1, hentered.2.2, op.run_body]⟩

private theorem operate_section (drv : EncoderDrv H) (operation : Operation) :
    ∃ op : PositionSection, op.begins = true ∧
      (drv.operate operation).encoderPosition = op.apply drv.encoderPosition := by
  have hcount (move : PositionSection) (hmove : move.begins = true) :
      ∃ op : PositionSection, op.begins = true ∧
        (drv.countStep move.apply).encoderPosition = op.apply drv.encoderPosition := by
    rw [EncoderDrv.countStep]
    dsimp only
    split
    · exact ⟨.elsewhere, rfl, rfl⟩
    · exact ⟨move, hmove, rfl⟩
  cases operation with
  | callback i =>
    rcases callback_cases drv i.gpio i.eventMask i.levelA i.levelB with he | he | he | ⟨_, _, he⟩
    · exact ⟨.elsewhere, rfl, by rw [EncoderDrv.operate, EncoderDrv.serve, he]; rfl⟩
    · rw [EncoderDrv.operate, EncoderDrv.serve, he, notifyStep_position, EncoderDrv.edgeA]
      split
      · split
        · exact hcount .decrement rfl
        · exact ⟨.elsewhere, rfl, rfl⟩
      · exact hcount .increment rfl
    · rw [EncoderDrv.operate, EncoderDrv.serve, he, notifyStep_position, EncoderDrv.edgeB]
      split
      · split
        · exact hcount .increment rfl
        · exact ⟨.elsewhere, rfl, rfl⟩
      · exact hcount .decrement rfl
    · exact ⟨.home, rfl, by rw [EncoderDrv.operate, EncoderDrv.serve, he]; rfl⟩
  | setEncoderPosition encoderPosition =>
    rw [EncoderDrv.operate, encoderDrvSetEncoderPosition]
    split
    · rename_i hvalid
      exact ⟨.set encoderPosition, hvalid, rfl⟩
    · exact ⟨.elsewhere, rfl, rfl⟩

/-- Every run of whole operations is one of these runs, without preemption. -/
theorem operations_preempted (drv : EncoderDrv H) (operations : List Operation)
    (s : PreemptedPosition) (hpoint : s.running.context.point = .outside)
    (hposition : s.encoderPosition = drv.encoderPosition) :
    ∃ actions, (Machine.run step s actions).encoderPosition =
      (Machine.run EncoderDrv.operate drv operations).encoderPosition := by
  induction operations generalizing drv s with
  | nil => exact ⟨[], hposition⟩
  | cons operation rest ih =>
    obtain ⟨op, hbegins, hop⟩ := operate_section drv operation
    obtain ⟨actions, hout, hlast⟩ := run_section s hpoint hbegins
    rw [hposition, ← hop] at hlast
    obtain ⟨later, hlater⟩ := ih (drv.operate operation) _ hout hlast
    refine ⟨actions ++ later, ?_⟩
    rw [Machine.run_append, Machine.run_cons]
    exact hlater

end PreemptedPosition

/-- However handlers preempt the main thread and each other, no update of the position is
lost or made halfway: between sections it is the result of the whole sections that are over,
in this order, a read finds the result of those over by then, and no statement of a section
leaves the valid positions. -/
theorem position_linear (saved : Bool) (actions : List PositionAction) :
    let s := Machine.run PreemptedPosition.step (.start saved) actions
    (¬ s.running.context.InSection →
        s.encoderPosition = PreemptedPosition.settled s.finished) ∧
      (∀ r ∈ s.reads, r.2 = PreemptedPosition.settled (s.finished.take r.1) ∧
        encoderDrvIsEncoderPositionValid r.2 = true) ∧
      encoderDrvIsEncoderPositionValid s.encoderPosition = true := by
  intro s
  have h : PreemptedPosition.Linear s :=
    Machine.run_invariant actions (PreemptedPosition.start_linear saved) fun _ a hs => hs.step a
  refine ⟨fun hout => h.between fun hp => hout (.inr hp), fun r hr => ?_, (valid_iff _).mpr ?_⟩
  · obtain ⟨_, hvalue⟩ := h.reads r hr
    refine ⟨hvalue, (valid_iff _).mpr ?_⟩
    rw [hvalue]
    exact PreemptedPosition.settled_lt fun op hop => h.begun op (List.mem_of_mem_take hop)
  · by_cases hpoint : s.running.context.point = .inside
    · exact (h.within hpoint).2.now
    · rw [h.between hpoint]
      exact PreemptedPosition.settled_lt h.begun

end ClosedLoopStepper.Encoder
