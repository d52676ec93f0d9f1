/-! The interrupt mask of the core and the one word in which the program saves it.
Reading the mask, setting it and storing what was read are separate steps. -/
namespace ClosedLoopStepper.Common

/-- `primask` is true while interrupts are masked. -/
structure Interrupts where
  primask : Bool
  systemUtilsSaveInterruptStatus : Bool
  deriving DecidableEq, Repr

namespace Interrupts

def initial : Interrupts := ⟨false, false⟩

/-- The first half of `save_and_disable_interrupts`: its future return value. -/
def readStatus (i : Interrupts) : Bool := i.primask

/-- The second half: mask the interrupts. -/
def disable (i : Interrupts) : Interrupts := { i with primask := true }

def saveStatus (i : Interrupts) (status : Bool) : Interrupts :=
  { i with systemUtilsSaveInterruptStatus := status }

def restore (i : Interrupts) : Interrupts :=
  { i with primask := i.systemUtilsSaveInterruptStatus }

end Interrupts

def systemUtilsDisableInterrupts (i : Interrupts) : Interrupts :=
  i.disable.saveStatus i.readStatus

def systemUtilsEnableInterrupts (i : Interrupts) : Interrupts := i.restore

/-- A section that nothing else touches leaves the mask as it found it. -/
theorem enable_disable (i : Interrupts) :
    systemUtilsEnableInterrupts (systemUtilsDisableInterrupts i) = ⟨i.primask, i.primask⟩ := rfl

end ClosedLoopStepper.Common
