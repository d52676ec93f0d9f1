import Mathlib.Data.List.Basic

/-! Parity checks: words folded with an operation in which every element is its own
inverse, such as exclusive or. The parity of a difference is the difference of the parities,
so a check misses exactly the damage whose own parity is zero. -/
namespace Foundations.Parity
variable {α : Type*}

/-- A commutative group in which every element is its own inverse. -/
structure SelfInverse (op : α → α → α) (zero : α) : Prop where
  assoc : ∀ a b c, op (op a b) c = op a (op b c)
  comm : ∀ a b, op a b = op b a
  zero_op : ∀ a, op zero a = a
  self : ∀ a, op a a = zero

def parity (op : α → α → α) (zero : α) (word : List α) : α := word.foldl op zero

def difference (op : α → α → α) (sent received : List α) : List α := List.zipWith op sent received

/-- The words differ in one place only, and do differ there. -/
def DifferInOne (sent received : List α) : Prop :=
  ∃ front a b back, a ≠ b ∧ sent = front ++ a :: back ∧ received = front ++ b :: back

namespace SelfInverse
variable {op : α → α → α} {zero : α} (h : SelfInverse op zero)
include h

theorem op_zero (a : α) : op a zero = a := by
  rw [h.comm, h.zero_op]

theorem op_eq_zero_iff (a b : α) : op a b = zero ↔ a = b := by
  constructor
  · intro hab
    calc
      a = op a (op b b) := by rw [h.self, h.op_zero]
      _ = op (op a b) b := (h.assoc a b b).symm
      _ = b := by rw [hab, h.zero_op]
  · rintro rfl
    exact h.self a

theorem foldl_eq (a : α) (word : List α) : word.foldl op a = op a (parity op zero word) := by
  induction word generalizing a with
  | nil => exact (h.op_zero a).symm
  | cons b rest ih => rw [parity, List.foldl_cons, List.foldl_cons, ih, ih, h.zero_op, h.assoc]

theorem parity_cons (a : α) (word : List α) :
    parity op zero (a :: word) = op a (parity op zero word) := by
  rw [parity, List.foldl_cons, h.zero_op, h.foldl_eq]

theorem parity_append (a b : List α) :
    parity op zero (a ++ b) = op (parity op zero a) (parity op zero b) := by
  rw [parity, List.foldl_append, h.foldl_eq]
  rfl

/-- A word with its check behind it has parity zero exactly when the check is its parity. -/
theorem parity_check (word : List α) (check : α) :
    parity op zero (word ++ [check]) = zero ↔ parity op zero word = check := by
  rw [h.parity_append, h.parity_cons, h.op_eq_zero_iff]
  exact Eq.congr_right (h.op_zero check)

theorem parity_difference {sent received : List α} (hlength : sent.length = received.length) :
    parity op zero (difference op sent received) =
      op (parity op zero sent) (parity op zero received) := by
  induction sent generalizing received with
  | nil =>
    cases received with
    | nil => exact (h.self zero).symm
    | cons b rest => cases hlength
  | cons a sent ih =>
    cases received with
    | nil => cases hlength
    | cons b received =>
      have hrest := ih (Nat.succ.inj hlength)
      rw [difference] at hrest ⊢
      rw [List.zipWith_cons_cons, h.parity_cons, hrest, h.parity_cons, h.parity_cons,
        h.assoc, h.assoc, ← h.assoc b, h.comm b, h.assoc]

/-- A word that was sent with parity zero is received with the parity of the difference. -/
theorem parity_received {sent received : List α} (hlength : sent.length = received.length)
    (hsent : parity op zero sent = zero) :
    parity op zero received = parity op zero (difference op sent received) := by
  rw [h.parity_difference hlength, hsent, h.zero_op]

/-- Damage in one place is never missed. -/
theorem parity_differInOne {sent received : List α} (hone : DifferInOne sent received) :
    parity op zero (difference op sent received) ≠ zero := by
  obtain ⟨front, a, b, back, hne, rfl, rfl⟩ := hone
  have hsame (word : List α) : parity op zero (difference op word word) = zero := by
    rw [h.parity_difference rfl, h.self]
  have hsplit : difference op (front ++ a :: back) (front ++ b :: back) =
      difference op front front ++ op a b :: difference op back back :=
    List.zipWith_append rfl
  rw [hsplit, h.parity_append, h.parity_cons, hsame, hsame, h.zero_op, h.op_zero]
  exact (h.op_eq_zero_iff a b).not.mpr hne

end SelfInverse
end Foundations.Parity
