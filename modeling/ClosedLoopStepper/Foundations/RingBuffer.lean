import Mathlib.Logic.Function.Basic
import Mathlib.Data.List.Basic

/-! A ring of n slots written at the head and read at the tail. Equal cursors mean
an empty or a full ring; one flag tells which. -/
namespace Foundations.RingBuffer
variable {α : Type*}

def next (n i : Nat) : Nat := if i + 1 = n then 0 else i + 1

/-- The cursors delimit the items: item k lies k slots after the tail and the
head is the slot after the last one. The full flag plays no part. -/
structure Layout (n : Nat) (slots : Nat → α) (head tail : Nat) (items : List α) : Prop where
  tail_lt : tail < n
  length_le : items.length ≤ n
  head_eq : head = (tail + items.length) % n
  item : ∀ k (h : k < items.length), slots ((tail + k) % n) = items[k]

/-- A layout whose flag says full exactly when every slot is taken. -/
structure Holds (n : Nat) (slots : Nat → α) (head tail : Nat) (full : Bool)
    (items : List α) : Prop extends Layout n slots head tail items where
  full_iff : full = true ↔ items.length = n

variable {n head tail : Nat} {slots : Nat → α} {full : Bool} {items : List α}

theorem next_eq_mod {i : Nat} (h : i < n) : next n i = (i + 1) % n := by
  unfold next
  split
  · rename_i he
    rw [he, Nat.mod_self]
  · rw [Nat.mod_eq_of_lt (by omega)]

theorem next_lt {i : Nat} (h : i < n) : next n i < n := by
  rw [next_eq_mod h]
  exact Nat.mod_lt _ (by omega)

theorem next_eq_zero_iff {i : Nat} : next n i = 0 ↔ i + 1 = n := by
  unfold next
  split_ifs with he
  · simp [he]
  · simp [he]

/-- Distinct distances below n from one slot reach distinct slots. -/
theorem offset_ne {i j : Nat} (hij : i < j) (hj : j < n) : (tail + i) % n ≠ (tail + j) % n := by
  intro he
  have hd := Nat.sub_mod_eq_zero_of_mod_eq he.symm
  rw [show tail + j - (tail + i) = j - i by omega, Nat.mod_eq_of_lt (by omega)] at hd
  omega

theorem Layout.empty (h : tail < n) : Layout n slots tail tail ([] : List α) where
  tail_lt := h
  length_le := Nat.zero_le n
  head_eq := (Nat.mod_eq_of_lt h).symm
  item := fun k hk => absurd hk (Nat.not_lt_zero k)

theorem Layout.head_lt (h : Layout n slots head tail items) : head < n := by
  rw [h.head_eq]
  exact Nat.mod_lt _ (Nat.zero_lt_of_lt h.tail_lt)

/-- The head is not the slot of any item while a slot is free. -/
theorem Layout.head_free (h : Layout n slots head tail items) (hroom : items.length < n)
    {k : Nat} (hk : k < items.length) : (tail + k) % n ≠ head := by
  rw [h.head_eq]
  exact offset_ne hk hroom

/-- Writing the head slot of a ring with room and advancing the head appends. -/
theorem Layout.push (h : Layout n slots head tail items) (hroom : items.length < n) (x : α) :
    Layout n (Function.update slots head x) (next n head) tail (items ++ [x]) where
  tail_lt := h.tail_lt
  length_le := by
    rw [List.length_append, List.length_singleton]
    exact hroom
  head_eq := by
    rw [next_eq_mod h.head_lt, h.head_eq, Nat.mod_add_mod, List.length_append,
      List.length_singleton, Nat.add_assoc]
  item := by
    intro k hk
    rw [List.length_append, List.length_singleton] at hk
    by_cases hlast : k = items.length
    · subst hlast
      rw [← h.head_eq, Function.update_self, List.getElem_concat_length rfl]
    · have hlt : k < items.length := by omega
      rw [Function.update_of_ne (h.head_free hroom hlt), h.item k hlt, List.getElem_append_left hlt]

/-- The tail slot holds the oldest item. -/
theorem Layout.tail_slot {x : α} (h : Layout n slots head tail (x :: items)) : slots tail = x := by
  have hi := h.item 0 (by simp)
  rwa [Nat.add_zero, Nat.mod_eq_of_lt h.tail_lt] at hi

/-- Advancing the tail drops the oldest item. -/
theorem Layout.pop {x : α} (h : Layout n slots head tail (x :: items)) :
    Layout n slots head (next n tail) items where
  tail_lt := next_lt h.tail_lt
  length_le := Nat.le_of_succ_le h.length_le
  head_eq := by
    rw [h.head_eq, next_eq_mod h.tail_lt, Nat.mod_add_mod, List.length_cons]
    congr 1
    omega
  item := by
    intro k hk
    have hi := h.item (k + 1) (by simpa using hk)
    rw [next_eq_mod h.tail_lt, Nat.mod_add_mod]
    rw [show tail + 1 + k = tail + (k + 1) by omega, hi, List.getElem_cons_succ]

/-- Equal cursors: the ring is empty or full. -/
theorem Layout.head_eq_tail_iff (h : Layout n slots head tail items) :
    head = tail ↔ items.length = 0 ∨ items.length = n := by
  have ht := h.tail_lt
  have hl := h.length_le
  rw [h.head_eq]
  constructor
  · intro he
    by_contra hne
    have hoffset : (tail + 0) % n ≠ (tail + items.length) % n := offset_ne (by omega) (by omega)
    rw [Nat.add_zero, Nat.mod_eq_of_lt ht] at hoffset
    exact hoffset he.symm
  · rintro (h0 | hn)
    · rw [h0, Nat.add_zero, Nat.mod_eq_of_lt ht]
    · rw [hn, Nat.add_mod_right, Nat.mod_eq_of_lt ht]

/-- The cursors, the flag and the slots determine the items. -/
theorem Layout.items_eq (h : Layout n slots head tail items) :
    items = (List.range items.length).map fun k => slots ((tail + k) % n) := by
  apply List.ext_getElem
  · simp
  · intro k hk _
    simp [h.item k hk]

/-- The slots from the tail up to the head, whatever the ring holds. A tail that still has to
be wrapped stands for the first slot. -/
def gap (n head tail : Nat) : Nat := (head + n - tail) % n

theorem gap_eq (hhead : head < n) (htail : tail ≤ n) :
    gap n head tail = if tail ≤ head then head - tail else head + n - tail := by
  unfold gap
  split_ifs with hle
  · rw [Nat.sub_add_comm hle, Nat.add_mod_right, Nat.mod_eq_of_lt (by omega)]
  · exact Nat.mod_eq_of_lt (by omega)

theorem gap_lt (hhead : head < n) : gap n head tail < n :=
  Nat.mod_lt _ (Nat.zero_lt_of_lt hhead)

theorem gap_eq_zero_iff (hhead : head < n) (htail : tail < n) :
    gap n head tail = 0 ↔ head = tail := by
  rw [gap_eq hhead (Nat.le_of_lt htail)]
  split_ifs <;> omega

theorem gap_wrap (hhead : head < n) : gap n head n = gap n head 0 := by
  rw [gap_eq hhead (Nat.le_refl n), gap_eq hhead (Nat.zero_le n)]
  split_ifs <;> omega

/-- The head goes away from the tail until it has come round. -/
theorem gap_next_head (hhead : head < n) (htail : tail ≤ n) :
    gap n (next n head) tail = next n (gap n head tail) := by
  rw [gap_eq (next_lt hhead) htail, gap_eq hhead htail]
  unfold next
  split_ifs <;> omega

/-- The tail comes closer to the head. -/
theorem next_gap_succ_tail (hhead : head < n) (htail : tail < n) :
    next n (gap n head (tail + 1)) = gap n head tail := by
  rw [gap_eq hhead htail, gap_eq hhead (Nat.le_of_lt htail)]
  unfold next
  split_ifs <;> omega

theorem Holds.empty (h : tail < n) : Holds n slots tail tail false ([] : List α) where
  toLayout := Layout.empty h
  full_iff := by
    simp only [Bool.false_eq_true, List.length_nil, false_iff]
    omega

theorem Holds.room (h : Holds n slots head tail false items) : items.length < n := by
  have hl := h.length_le
  have hf : ¬ items.length = n := fun he => by simpa using h.full_iff.mpr he
  omega

/-- Appending raises the flag exactly when the head catches up with the tail. -/
theorem Holds.push (h : Holds n slots head tail false items) (x : α) :
    Holds n (Function.update slots head x) (next n head) tail (decide (next n head = tail))
      (items ++ [x]) where
  toLayout := h.toLayout.push h.room x
  full_iff := by
    rw [decide_eq_true_iff, (h.toLayout.push h.room x).head_eq_tail_iff]
    simp

/-- Dropping the oldest item always lowers the flag. -/
theorem Holds.pop {x : α} (h : Holds n slots head tail full (x :: items)) :
    Holds n slots head (next n tail) false items where
  toLayout := h.toLayout.pop
  full_iff := by
    have hl := h.length_le
    rw [List.length_cons] at hl
    simp only [Bool.false_eq_true, false_iff]
    omega

/-- The reader's test: something is left when the cursors differ or the flag is up. -/
theorem Holds.nonempty_iff (h : Holds n slots head tail full items) :
    (head ≠ tail ∨ full = true) ↔ items ≠ [] := by
  have hn := h.tail_lt
  rw [Ne, h.head_eq_tail_iff, h.full_iff, ← List.length_pos_iff]
  omega

end Foundations.RingBuffer
