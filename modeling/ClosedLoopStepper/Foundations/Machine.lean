import Mathlib.Algebra.Order.BigOperators.Group.List
import Mathlib.Algebra.Order.Ring.Int

/-! Runs of a deterministic machine over a list of inputs. One rule carries an
invariant through every step that meets a side condition on the state before it. -/
namespace Foundations.Machine
variable {S T I : Type*}

def run (step : S → I → S) (s : S) (inputs : List I) : S := inputs.foldl step s

/-- Every step of the run is taken in a state where the side condition holds. -/
def Meets (step : S → I → S) (cond : S → I → Prop) : S → List I → Prop
  | _, [] => True
  | s, i :: rest => cond s i ∧ Meets step cond (step s i) rest

/-- The predicate holds in every state of the run, the first and the last included. -/
def Always (step : S → I → S) (P : S → Prop) : S → List I → Prop
  | s, [] => P s
  | s, i :: rest => P s ∧ Always step P (step s i) rest

variable {step : S → I → S} {cond : S → I → Prop} {P : S → Prop}

@[simp] theorem run_nil (s : S) : run step s [] = s := rfl

@[simp] theorem run_cons (s : S) (i : I) (rest : List I) :
    run step s (i :: rest) = run step (step s i) rest := rfl

@[simp] theorem run_append (s : S) (a b : List I) :
    run step s (a ++ b) = run step (run step s a) b := List.foldl_append

instance Meets.decidable (step : S → I → S) (cond : S → I → Prop)
    [∀ s i, Decidable (cond s i)] : ∀ s inputs, Decidable (Meets step cond s inputs)
  | _, [] => inferInstanceAs (Decidable True)
  | s, i :: rest =>
    have := Meets.decidable step cond (step s i) rest
    inferInstanceAs (Decidable (cond s i ∧ Meets step cond (step s i) rest))

theorem meets_append (s : S) (a b : List I) :
    Meets step cond s (a ++ b) ↔ Meets step cond s a ∧ Meets step cond (run step s a) b := by
  induction a generalizing s with
  | nil => simp [Meets]
  | cons i rest ih => simp [Meets, ih, and_assoc]

theorem meets_true (s : S) (inputs : List I) : Meets step (fun _ _ => True) s inputs := by
  induction inputs generalizing s with
  | nil => trivial
  | cons i rest ih => exact ⟨trivial, ih (step s i)⟩

/-- The invariant rule: what holds at the start and is kept by every step that
meets the condition holds after the run. -/
theorem Meets.invariant {s : S} {inputs : List I} (hm : Meets step cond s inputs)
    (h0 : P s) (hstep : ∀ s i, P s → cond s i → P (step s i)) : P (run step s inputs) := by
  induction inputs generalizing s with
  | nil => exact h0
  | cons i rest ih => exact ih hm.2 (hstep s i h0 hm.1)

/-- The same rule for a machine whose steps need no condition. -/
theorem run_invariant {s : S} (inputs : List I) (h0 : P s)
    (hstep : ∀ s i, P s → P (step s i)) : P (run step s inputs) := by
  induction inputs generalizing s with
  | nil => exact h0
  | cons i rest ih => exact ih (hstep s i h0)

/-- The rule for one input over and over. -/
theorem run_replicate_invariant {s : S} {i : I} (n : Nat) (h0 : P s)
    (hstep : ∀ s, P s → P (step s i)) : P (run step s (List.replicate n i)) := by
  induction n generalizing s with
  | zero => exact h0
  | succ n ih => exact ih (hstep s h0)

/-- An input that changes nothing changes nothing however often it comes. -/
theorem run_fixed {s : S} {i : I} (hfix : step s i = s) (n : Nat) :
    run step s (List.replicate n i) = s :=
  run_replicate_invariant (P := fun t => t = s) n rfl fun t ht => by rw [ht, hfix]

/-- A loop that has fuel for so many rounds, and goes on with them while its test holds, ends
where the test fails, whatever fuel is left. -/
theorem loop_stops {R : Type*} (loop : Nat → S → Option R) (test : S → Bool) (result : S → R)
    {more : Nat → S → Option R}
    (hzero : ∀ s, loop 0 s = if test s then none else some (result s))
    (hsucc : ∀ fuel s, loop (fuel + 1) s = if test s then more fuel s else some (result s))
    {s : S} (h : test s = false) (fuel : Nat) : loop fuel s = some (result s) := by
  cases fuel with
  | zero => rw [hzero, h, if_neg Bool.false_ne_true]
  | succ fuel => rw [hsucc, h, if_neg Bool.false_ne_true]

theorem Always.start {s : S} {inputs : List I} (h : Always step P s inputs) : P s := by
  cases inputs with
  | nil => exact h
  | cons i rest => exact h.1

/-- The invariant rule for every state of the run. -/
theorem Meets.always {J : S → Prop} {s : S} {inputs : List I} (hm : Meets step cond s inputs)
    (h0 : J s) (hstep : ∀ s i, J s → cond s i → J (step s i)) (hP : ∀ s, J s → P s) :
    Always step P s inputs := by
  induction inputs generalizing s with
  | nil => exact hP s h0
  | cons i rest ih => exact ⟨hP s h0, ih hm.2 (hstep s i h0 hm.1)⟩

/-- The exact rule, for runs whose inputs come from an environment: the predicate holds
throughout exactly when every step meets a condition that keeps the invariant and that
no step can miss unharmed. -/
theorem always_iff_meets {env : S → I → Prop} {Inv : S → Prop} {s : S} {inputs : List I}
    (hm : Meets step env s inputs) (h0 : Inv s) (hP : ∀ s, Inv s → P s)
    (hkeep : ∀ s i, Inv s → env s i → cond s i → Inv (step s i))
    (hneeds : ∀ s i, Inv s → env s i → P (step s i) → cond s i) :
    Always step P s inputs ↔ Meets step cond s inputs := by
  induction inputs generalizing s with
  | nil => exact ⟨fun _ => trivial, fun _ => hP s h0⟩
  | cons i rest ih =>
    constructor
    · rintro ⟨_, hrest⟩
      have hc := hneeds s i h0 hm.1 hrest.start
      exact ⟨hc, (ih hm.2 (hkeep s i h0 hm.1 hc)).mp hrest⟩
    · rintro ⟨hc, hrest⟩
      exact ⟨hP s h0, (ih hm.2 (hkeep s i h0 hm.1 hc)).mpr hrest⟩

/-- A step that misses the condition spoils a run for good: an invariant holds at its end if
every step has met the condition, and the spoiled one otherwise. -/
theorem meets_or_spoiled {J K : S → Prop} {s : S} (inputs : List I) (h0 : J s)
    (hkeep : ∀ s i, J s → cond s i → J (step s i)) (hspoil : ∀ s i, J s → ¬ cond s i → K (step s i))
    (hstay : ∀ s i, K s → K (step s i)) :
    Meets step cond s inputs ∧ J (run step s inputs) ∨
      ¬ Meets step cond s inputs ∧ K (run step s inputs) := by
  induction inputs generalizing s with
  | nil => exact .inl ⟨trivial, h0⟩
  | cons i rest ih =>
    by_cases hc : cond s i
    · rcases ih (hkeep s i h0 hc) with ⟨hmeets, hj⟩ | ⟨hmisses, hk⟩
      · exact .inl ⟨⟨hc, hmeets⟩, hj⟩
      · exact .inr ⟨fun hm => hmisses hm.2, hk⟩
    · exact .inr ⟨fun hm => hc hm.1, run_invariant rest (hspoil s i h0 hc) hstay⟩

/-- The accounting rule: what every input adds to a potential at most, a run of inputs adds
at most in sum. -/
theorem run_potential {potential : S → Int} {charge : I → Int} {s : S} (inputs : List I)
    (h0 : P s) (hkeep : ∀ s i, P s → P (step s i))
    (hcharge : ∀ s i, P s → potential (step s i) ≤ potential s + charge i) :
    potential (run step s inputs) ≤ potential s + (inputs.map charge).sum := by
  induction inputs generalizing s with
  | nil => exact (add_zero (potential s)).ge
  | cons i rest ih =>
    have hrest := ih (hkeep s i h0)
    have hfirst := hcharge s i h0
    rw [List.map_cons, List.sum_cons, run_cons]
    omega

/-- The same rule for every state of the run, when no input takes anything away. -/
theorem always_potential {potential : S → Int} {charge : I → Int} {bound : Int} {Q : S → Prop}
    {s : S} {inputs : List I} (h0 : P s) (hkeep : ∀ s i, P s → P (step s i))
    (hcharge : ∀ s i, P s → potential (step s i) ≤ potential s + charge i)
    (hnonneg : ∀ i, 0 ≤ charge i) (hbound : potential s + (inputs.map charge).sum ≤ bound)
    (hQ : ∀ s, P s → potential s ≤ bound → Q s) : Always step Q s inputs := by
  have hsum (rest : List I) : 0 ≤ (rest.map charge).sum :=
    List.sum_nonneg fun _ hx => by
      obtain ⟨i, _, rfl⟩ := List.mem_map.mp hx
      exact hnonneg i
  induction inputs generalizing s with
  | nil => exact hQ s h0 (by simpa using hbound)
  | cons i rest ih =>
    rw [List.map_cons, List.sum_cons] at hbound
    have hfirst := hcharge s i h0
    have hrest := hsum rest
    have hi := hnonneg i
    exact ⟨hQ s h0 (by omega), ih (hkeep s i h0) (by omega)⟩

/-- Lockstep simulation: a relation kept by each pair of equal inputs relates the
states after every run. -/
theorem run_simulation {step' : T → I → T} {R : S → T → Prop} {s : S} {t : T}
    (inputs : List I) (h0 : R s t)
    (hstep : ∀ s t i, R s t → R (step s i) (step' t i)) :
    R (run step s inputs) (run step' t inputs) := by
  induction inputs generalizing s t with
  | nil => exact h0
  | cons i rest ih => exact ih (hstep s t i h0)

def pair (step : S → I → S) (step' : T → I → T) (p : S × T) (i : I) : S × T :=
  (step p.1 i, step' p.2 i)

/-- A view of the states that follows every step wherever the invariant holds. -/
structure Refinement (step : S → I → S) (step' : T → I → T) (view : S → T) (Inv : S → Prop) :
    Prop where
  keeps : ∀ s i, Inv s → Inv (step s i)
  follows : ∀ s i, Inv s → view (step s i) = step' (view s) i

namespace Refinement
variable {step' : T → I → T} {view : S → T} {Inv : S → Prop}

/-- Refinements compose. -/
theorem trans {U : Type*} {step'' : U → I → U} {view' : T → U} {Inv' : T → Prop}
    (h : Refinement step step' view Inv) (h' : Refinement step' step'' view' Inv') :
    Refinement step step'' (fun s => view' (view s)) (fun s => Inv s ∧ Inv' (view s)) where
  keeps s i hs := by
    rw [h.follows s i hs.1]
    exact ⟨h.keeps s i hs.1, h'.keeps (view s) i hs.2⟩
  follows s i hs := by
    rw [h.follows s i hs.1]
    exact h'.follows (view s) i hs.2

/-- Two refinements side by side. -/
theorem pair {S' T' : Type*} {step₁ : S' → I → S'} {step₁' : T' → I → T'} {view₁ : S' → T'}
    {Inv₁ : S' → Prop} (h : Refinement step step' view Inv)
    (h₁ : Refinement step₁ step₁' view₁ Inv₁) :
    Refinement (Machine.pair step step₁) (Machine.pair step' step₁')
      (fun p => (view p.1, view₁ p.2)) (fun p => Inv p.1 ∧ Inv₁ p.2) where
  keeps p i hp := ⟨h.keeps p.1 i hp.1, h₁.keeps p.2 i hp.2⟩
  follows p i hp := Prod.ext (h.follows p.1 i hp.1) (h₁.follows p.2 i hp.2)

/-- Viewing after a run is running the view. -/
theorem run_view (h : Refinement step step' view Inv) {s : S} (h0 : Inv s) (inputs : List I) :
    Inv (run step s inputs) ∧ view (run step s inputs) = run step' (view s) inputs := by
  induction inputs generalizing s with
  | nil => exact ⟨h0, rfl⟩
  | cons i rest ih =>
    rw [run_cons, run_cons, ← h.follows s i h0]
    exact ih (h.keeps s i h0)

theorem meets_view (h : Refinement step step' view Inv) {cond : T → I → Prop} {s : S}
    (h0 : Inv s) (inputs : List I) :
    Meets step (fun s i => cond (view s) i) s inputs ↔ Meets step' cond (view s) inputs := by
  induction inputs generalizing s with
  | nil => exact Iff.rfl
  | cons i rest ih => rw [Meets, Meets, ih (h.keeps s i h0), h.follows s i h0]

theorem always_view (h : Refinement step step' view Inv) {P : T → Prop} {s : S}
    (h0 : Inv s) (inputs : List I) :
    Always step (fun s => P (view s)) s inputs ↔ Always step' P (view s) inputs := by
  induction inputs generalizing s with
  | nil => exact Iff.rfl
  | cons i rest ih => rw [Always, Always, ih (h.keeps s i h0), h.follows s i h0]

end Refinement

/-- A machine of smaller steps: where the condition holds, a step is some steps of the other
machine, often none, and these carry the same labels. -/
structure Reduction {J K : Type*} (step : S → I → S) (step' : T → J → T) (cond : S → I → Prop)
    (reduced : S → T) (Inv : S → Prop) (label : I → List K) (label' : J → List K) : Prop where
  keeps : ∀ s i, Inv s → cond s i → Inv (step s i)
  follows : ∀ s i, Inv s → cond s i →
    ∃ inputs, reduced (step s i) = run step' (reduced s) inputs ∧ inputs.flatMap label' = label i

/-- What a run of small steps has done by now, a run of the other machine does, and its labels
come in the same order. -/
theorem Reduction.run_reduced {J K : Type*} {step' : T → J → T} {reduced : S → T}
    {Inv : S → Prop} {label : I → List K} {label' : J → List K}
    (h : Reduction step step' cond reduced Inv label label') {s : S} (h0 : Inv s) {inputs : List I}
    (hm : Meets step cond s inputs) :
    Inv (run step s inputs) ∧ ∃ inputs', reduced (run step s inputs) = run step' (reduced s) inputs' ∧
      inputs'.flatMap label' = inputs.flatMap label := by
  induction inputs generalizing s with
  | nil => exact ⟨h0, [], rfl, rfl⟩
  | cons i rest ih =>
    obtain ⟨first, hfirst, hlabel⟩ := h.follows s i h0 hm.1
    obtain ⟨hkept, later, hlater, hlabels⟩ := ih (h.keeps s i h0 hm.1) hm.2
    refine ⟨hkept, first ++ later, ?_, ?_⟩
    · rw [run_append, ← hfirst, run_cons, hlater]
    · rw [List.flatMap_append, hlabel, hlabels, List.flatMap_cons]

end Foundations.Machine
