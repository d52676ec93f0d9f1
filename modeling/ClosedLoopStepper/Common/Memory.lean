import Mathlib.Data.List.Basic

/-! Memory as a function of the offset: what a pointer points to, and `memcpy`. -/
namespace ClosedLoopStepper.Common

def pointer (bytes : List UInt8) : Nat → UInt8 := fun k => bytes.getD k 0

/-- The first size bytes come from src, the rest of the destination stays. -/
def memcpy (dest src : Nat → UInt8) (size : Nat) : Nat → UInt8 :=
  fun k => if k < size then src k else dest k

theorem pointer_read (bytes : List UInt8) :
    (List.range bytes.length).map (pointer bytes) = bytes := by
  apply List.ext_getElem
  · simp
  · intro k _ hk
    simp [pointer, hk]

/-- Copied bytes are read back from the start of the destination. -/
theorem memcpy_read (dest src : Nat → UInt8) (size : Nat) :
    (List.range size).map (memcpy dest src size) = (List.range size).map src := by
  apply List.map_congr_left
  intro k hk
  rw [memcpy, if_pos (List.mem_range.mp hk)]

end ClosedLoopStepper.Common
