import ClosedLoopStepper.Common.Interrupts
import ClosedLoopStepper.Foundations.Machine

/-! Critical sections of the main thread and of interrupt handlers to any depth. All of
them save the mask in the same word. A handler can overwrite it between the statements of
another context's section only while the mask is clear, and then that section has yet to
write it. -/
namespace ClosedLoopStepper.Common
open Foundations

/-- The next statement of a context that concerns the mask. The first three after `outside`
are those of `system_utils_disable_interrupts`. -/
inductive SectionPoint
  | outside | readPrimask | setPrimask | saveStatus | inside
  deriving DecidableEq, Repr

/-- A context with the interrupt status it has read. `before` is no variable of the program:
it records the mask as it was when the section was begun. -/
structure Context where
  point : SectionPoint
  status : Bool
  before : Bool
  deriving DecidableEq, Repr

namespace Context

def start : Context := ⟨.outside, false, false⟩

def InSection (c : Context) : Prop := c.point = .saveStatus ∨ c.point = .inside

instance (c : Context) : Decidable c.InSection := inferInstanceAs (Decidable (_ ∨ _))

end Context

/-- The running context comes with those it has preempted, the latest first. The last of
all is the main thread. -/
structure Core where
  interrupts : Interrupts
  running : Context
  preempted : List Context
  deriving DecidableEq, Repr

inductive CoreAction
  | preempt
  | handlerReturn
  | disableInterrupts
  | advance
  deriving DecidableEq, Repr

namespace Core

def start (saved : Bool) : Core := ⟨⟨false, saved⟩, .start, []⟩

def advance (s : Core) : Core :=
  match s.running.point with
  | .outside => s
  | .readPrimask =>
    { s with running := { s.running with point := .setPrimask, status := s.interrupts.readStatus } }
  | .setPrimask =>
    { s with
      interrupts := s.interrupts.disable
      running := { s.running with point := .saveStatus } }
  | .saveStatus =>
    { s with
      interrupts := s.interrupts.saveStatus s.running.status
      running := { s.running with point := .inside } }
  | .inside =>
    { s with
      interrupts := s.interrupts.restore
      running := { s.running with point := .outside } }

/-- A handler starts only while interrupts are enabled, and returns outside its sections;
a section does not begin inside another one of the same context. -/
def step (s : Core) : CoreAction → Core
  | .preempt =>
    if s.interrupts.primask then s
    else { s with running := .start, preempted := s.running :: s.preempted }
  | .handlerReturn =>
    match s.running.point, s.preempted with
    | .outside, c :: rest => { s with running := c, preempted := rest }
    | _, _ => s
  | .disableInterrupts =>
    match s.running.point with
    | .outside =>
      { s with
        running := { s.running with point := .readPrimask, before := s.interrupts.primask } }
    | _ => s
  | .advance => s.advance

/-- A context that can be preempted: if it has read the mask, it has read it clear, and it
has yet to write the saved word. -/
def Suspended (c : Context) : Prop :=
  match c.point with
  | .outside => True
  | .readPrimask => c.before = false
  | .setPrimask => c.before = false ∧ c.status = false
  | .saveStatus | .inside => False

/-- The running context holds the mask; the saved word is clear once it is written. -/
def Holds (s : Core) : Prop :=
  s.interrupts.primask = true ∧ s.running.before = false ∧
    match s.running.point with
    | .saveStatus => s.running.status = false
    | .inside => s.interrupts.systemUtilsSaveInterruptStatus = false
    | _ => False

/-- Only the running context can be inside a section. -/
structure Coherent (s : Core) : Prop where
  running : s.interrupts.primask = false ∧ Suspended s.running ∨ s.Holds
  preempted : ∀ c ∈ s.preempted, Suspended c

theorem start_coherent (saved : Bool) : Coherent (start saved) where
  running := Or.inl ⟨rfl, trivial⟩
  preempted := fun _ hin => absurd hin List.not_mem_nil

variable {s : Core}

theorem Suspended.not_inSection {c : Context} (h : Suspended c) : ¬ c.InSection := by
  rintro (hp | hp)
  · rw [Suspended, hp] at h
    exact h
  · rw [Suspended, hp] at h
    exact h

private theorem Holds.inSection (h : s.Holds) : s.running.InSection := by
  obtain ⟨_, _, h⟩ := h
  cases hp : s.running.point with
  | saveStatus => exact Or.inl hp
  | inside => exact Or.inr hp
  | outside => simp only [hp] at h
  | readPrimask => simp only [hp] at h
  | setPrimask => simp only [hp] at h

/-- The mask is set exactly while the running context is in a section. -/
theorem Coherent.primask_iff (h : Coherent s) :
    s.interrupts.primask = true ↔ s.running.InSection := by
  rcases h.running with ⟨hclear, hsuspended⟩ | hholds
  · rw [hclear]
    exact ⟨fun habs => (nomatch habs), fun hin => absurd hin hsuspended.not_inSection⟩
  · exact ⟨fun _ => hholds.inSection, fun _ => hholds.1⟩

private theorem Coherent.suspended (h : Coherent s) (hout : ¬ s.running.InSection) :
    s.interrupts.primask = false ∧ Suspended s.running := by
  rcases h.running with hsuspended | hholds
  · exact hsuspended
  · exact absurd hholds.inSection hout

private theorem Coherent.holds (h : Coherent s) (hin : s.running.InSection) : s.Holds := by
  rcases h.running with ⟨_, hsuspended⟩ | hholds
  · exact absurd hin hsuspended.not_inSection
  · exact hholds

theorem Coherent.preempt (h : Coherent s) : Coherent (s.step .preempt) := by
  unfold step
  dsimp only
  split
  · exact h
  · rename_i hclear
    obtain ⟨hprimask, hsuspended⟩ := h.suspended (h.primask_iff.not.mp hclear)
    exact ⟨Or.inl ⟨hprimask, trivial⟩, List.forall_mem_cons.mpr ⟨hsuspended, h.preempted⟩⟩

/-- The context returned to finds the mask as it left it. -/
theorem Coherent.handlerReturn (h : Coherent s) : Coherent (s.step .handlerReturn) := by
  unfold step
  dsimp only
  split
  · rename_i c rest hpoint hpreempted
    have hsuspended := h.preempted
    rw [hpreempted, List.forall_mem_cons] at hsuspended
    have hout : ¬ s.running.InSection := by simp [Context.InSection, hpoint]
    exact ⟨Or.inl ⟨(h.suspended hout).1, hsuspended.1⟩, hsuspended.2⟩
  · exact h

theorem Coherent.disableInterrupts (h : Coherent s) : Coherent (s.step .disableInterrupts) := by
  unfold step
  dsimp only
  split
  · rename_i hpoint
    have hout : ¬ s.running.InSection := by simp [Context.InSection, hpoint]
    have hprimask := (h.suspended hout).1
    exact ⟨Or.inl ⟨hprimask, hprimask⟩, h.preempted⟩
  · exact h

theorem Coherent.advance (h : Coherent s) : Coherent s.advance := by
  unfold Core.advance
  cases hp : s.running.point with
  | outside => exact h
  | readPrimask =>
    have hout : ¬ s.running.InSection := by simp [Context.InSection, hp]
    obtain ⟨hprimask, hbefore⟩ := h.suspended hout
    rw [Suspended, hp] at hbefore
    exact ⟨Or.inl ⟨hprimask, hbefore, hprimask⟩, h.preempted⟩
  | setPrimask =>
    have hout : ¬ s.running.InSection := by simp [Context.InSection, hp]
    have hread := (h.suspended hout).2
    rw [Suspended, hp] at hread
    exact ⟨Or.inr ⟨rfl, hread.1, hread.2⟩, h.preempted⟩
  | saveStatus =>
    obtain ⟨hprimask, hbefore, hstatus⟩ := h.holds (Or.inl hp)
    rw [hp] at hstatus
    exact ⟨Or.inr ⟨hprimask, hbefore, hstatus⟩, h.preempted⟩
  | inside =>
    obtain ⟨_, _, hsaved⟩ := h.holds (Or.inr hp)
    rw [hp] at hsaved
    exact ⟨Or.inl ⟨hsaved, trivial⟩, h.preempted⟩

theorem Coherent.step (h : Coherent s) (action : CoreAction) : Coherent (s.step action) := by
  cases action with
  | preempt => exact h.preempt
  | handlerReturn => exact h.handlerReturn
  | disableInterrupts => exact h.disableInterrupts
  | advance => exact h.advance

theorem run_coherent (h : Coherent s) (actions : List CoreAction) :
    Coherent (Machine.run Core.step s actions) :=
  Machine.run_invariant actions h fun _ action hc => hc.step action

/-- The last statement of a section restores what was found before the first one. -/
theorem Coherent.restores (h : Coherent s) (hp : s.running.point = .inside) :
    (s.step .advance).interrupts.primask = s.running.before := by
  obtain ⟨_, hbefore, hsaved⟩ := h.holds (Or.inr hp)
  rw [hp] at hsaved
  rw [hbefore, Core.step, Core.advance, hp]
  exact hsaved

/-- The rest of a section is at most two statements, and unmasks the interrupts. -/
theorem Coherent.unmasks (h : Coherent s) :
    ∃ n ≤ 2, (Machine.run Core.step s (List.replicate n .advance)).interrupts.primask = false := by
  rcases h.running with ⟨hclear, _⟩ | hholds
  · exact ⟨0, Nat.zero_le 2, hclear⟩
  · have hbefore := hholds.2.1
    rcases hholds.inSection with hp | hp
    · have hnext : (s.step .advance).running =
          { s.running with point := .inside } := by
        rw [Core.step, Core.advance, hp]
      have hrestored := (h.step .advance).restores (congrArg Context.point hnext)
      rw [hnext] at hrestored
      exact ⟨2, Nat.le_refl 2, hrestored.trans hbefore⟩
    · exact ⟨1, Nat.le_succ 1, (h.restores hp).trans hbefore⟩

end Core

/-- One saved word is enough. However handlers preempt the main thread and each other, none
runs while a context it preempted is in a section, the mask is set in sections only and
restored to what it was before them, and it never stays set. -/
theorem sections_safe (saved : Bool) (actions : List CoreAction) :
    let s := Machine.run Core.step (Core.start saved) actions
    (∀ c ∈ s.preempted, ¬ c.InSection) ∧
      (s.running.InSection → s.step .preempt = s) ∧
      (s.interrupts.primask = true ↔ s.running.InSection) ∧
      (s.running.point = .inside →
        (s.step .advance).interrupts.primask = s.running.before) ∧
      ∃ n ≤ 2,
        (Machine.run Core.step s (List.replicate n .advance)).interrupts.primask = false := by
  intro s
  have hs : Core.Coherent s := Core.run_coherent (Core.start_coherent saved) actions
  refine ⟨fun c hin => (hs.preempted c hin).not_inSection, ?_, hs.primask_iff, hs.restores,
    hs.unmasks⟩
  intro hin
  rw [Core.step, if_pos (hs.primask_iff.mpr hin)]

end ClosedLoopStepper.Common
