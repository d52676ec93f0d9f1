import Mathlib.Data.List.Induction

/-! Programs of loads and stores on one shared variable. Run one statement at a time by an
owner that excludes all others, they act on the variable as one operation each. -/
namespace Foundations
variable {V Op : Type*}

/-- The rest of a program: what it loads decides how it goes on. -/
inductive Body (V : Type*)
  | done
  | load (next : V → Body V)
  | store (value : V) (next : Body V)

namespace Body

def isDone : Body V → Bool
  | done => true
  | _ => false

def step : Body V → V → Body V × V
  | done, v => (done, v)
  | load next, v => (next v, v)
  | store value next, _ => (next, value)

def run : Body V → V → V
  | done, v => v
  | load next, v => (next v).run v
  | store value next, _ => next.run value

/-- The predicate holds of every value that the variable has up to the end. -/
def Passes (P : V → Prop) : Body V → V → Prop
  | done, v => P v
  | load next, v => P v ∧ (next v).Passes P v
  | store value next, v => P v ∧ next.Passes P value

theorem run_of_isDone {b : Body V} (h : b.isDone = true) (v : V) : b.run v = v := by
  cases b with
  | done => rfl
  | load next => cases h
  | store value next => cases h

theorem run_step (b : Body V) (v : V) : (b.step v).1.run (b.step v).2 = b.run v := by
  cases b <;> rfl

variable {P : V → Prop}

theorem Passes.now {b : Body V} {v : V} (h : b.Passes P v) : P v := by
  cases b with
  | done => exact h
  | load next => exact h.1
  | store value next => exact h.1

theorem Passes.step {b : Body V} {v : V} (h : b.Passes P v) : (b.step v).1.Passes P (b.step v).2 := by
  cases b with
  | done => exact h
  | load next => exact h.2
  | store value next => exact h.2

theorem Passes.run {b : Body V} {v : V} (h : b.Passes P v) : P (b.run v) := by
  induction b generalizing v with
  | done => exact h
  | load next ih => exact ih v h.2
  | store value next ih => exact ih h.2

end Body

def inOrder (apply : Op → V → V) (initial : V) (finished : List Op) : V :=
  finished.foldl (fun v op => apply op v) initial

section InOrder
variable {apply : Op → V → V} {initial : V}

theorem inOrder_concat (finished : List Op) (op : Op) :
    inOrder apply initial (finished ++ [op]) = apply op (inOrder apply initial finished) := by
  rw [inOrder, List.foldl_append]
  rfl

/-- What every operation keeps holds after any number of them. -/
theorem inOrder_invariant {P : V → Prop} {finished : List Op} (h0 : P initial)
    (hkeep : ∀ op ∈ finished, ∀ v, P v → P (apply op v)) : P (inOrder apply initial finished) := by
  induction finished using List.reverseRecOn with
  | nil => exact h0
  | append_singleton finished op ih =>
    rw [inOrder_concat]
    exact hkeep op (List.mem_append_right _ (List.mem_singleton_self op)) _
      (ih fun op' h => hkeep op' (List.mem_append_left _ h))

/-- The owner has run a part of its program: the rest makes of the variable what the whole
operation makes of what the finished ones have left. -/
def Owned (apply : Op → V → V) (initial : V) (finished : List Op) (op : Op) (rest : Body V)
    (v : V) : Prop :=
  rest.run v = apply op (inOrder apply initial finished)

theorem Owned.begin {finished : List Op} {op : Op} {b : Body V} {v : V}
    (h : v = inOrder apply initial finished) (hb : ∀ v, b.run v = apply op v) :
    Owned apply initial finished op b v := by
  rw [Owned, hb, h]

theorem Owned.step {finished : List Op} {op : Op} {rest : Body V} {v : V}
    (h : Owned apply initial finished op rest v) :
    Owned apply initial finished op (rest.step v).1 (rest.step v).2 := by
  rw [Owned, Body.run_step]
  exact h

/-- At the end of its program the operation is one more of those in order. -/
theorem Owned.finish {finished : List Op} {op : Op} {rest : Body V} {v : V}
    (h : Owned apply initial finished op rest v) (hdone : rest.isDone = true) :
    v = inOrder apply initial (finished ++ [op]) := by
  rw [inOrder_concat, ← h, Body.run_of_isDone hdone]

end InOrder
end Foundations
