import Mathlib.Logic.Function.Basic
import ClosedLoopStepper.Common.Memory

/-! The scheduler component: three parallel arrays of fifty slots and two cursors.
The critical section and the loop tail are kept as their separate statements, so
that the same statements run whole here and one at a time under preemption. -/
namespace ClosedLoopStepper.Scheduler
open Common
variable {H : Type}

def schedulerMaxQueueSize : Nat := 50
def schedulerMaxDataBufferSize : Nat := 10

inductive SchedulerOperationStatus
  | success | invalidLength | queueFull
  deriving DecidableEq, Repr

/-- H is the type of handler pointers. An array is a function of its index;
`isEmpty` is the source's name for the flag that says a slot is free. -/
structure SchedulerParams (H : Type) where
  eventHandler : Nat → H
  dataBuffer : Nat → Nat → UInt8
  dataLength : Nat → Nat
  head : Nat
  tail : Nat
  isEmpty : Bool

structure SchedulerEvent (H : Type) where
  handler : H
  data : List UInt8
  deriving DecidableEq, Repr

def schedulerInit (params : SchedulerParams H) : SchedulerParams H × SchedulerOperationStatus :=
  ({ params with head := 0, tail := 0, isEmpty := true }, .success)

namespace SchedulerParams

/-- The static arrays before anything is put, with one handler in every slot. -/
def zeroed (eventHandler : H) : SchedulerParams H :=
  ⟨fun _ => eventHandler, fun _ _ => 0, fun _ => 0, 0, 0, true⟩

def copyEventData (params : SchedulerParams H) (pEventData : Option (Nat → UInt8))
    (eventDataSize : Nat) : SchedulerParams H :=
  match pEventData with
  | some src =>
    if eventDataSize ≠ 0 then
      let row := memcpy (params.dataBuffer params.head) src eventDataSize
      { params with dataBuffer := Function.update params.dataBuffer params.head row }
    else params
  | none => params

def storeEventHandler (params : SchedulerParams H) (eventHandler : H) : SchedulerParams H :=
  { params with eventHandler := Function.update params.eventHandler params.head eventHandler }

def storeDataLength (params : SchedulerParams H) (eventDataSize : Nat) : SchedulerParams H :=
  { params with dataLength := Function.update params.dataLength params.head eventDataSize }

def incrementHead (params : SchedulerParams H) : SchedulerParams H :=
  { params with head := params.head + 1 }

def wrapHead (params : SchedulerParams H) : SchedulerParams H :=
  if params.head = schedulerMaxQueueSize then { params with head := 0 } else params

def markFull (params : SchedulerParams H) : SchedulerParams H :=
  if params.head = params.tail then { params with isEmpty := false } else params

/-- The statements between disabling and enabling the interrupts. -/
def enqueue (params : SchedulerParams H) (pEventData : Option (Nat → UInt8))
    (eventDataSize : Nat) (eventHandler : H) : SchedulerParams H :=
  (((((params.copyEventData pEventData eventDataSize).storeEventHandler
    eventHandler).storeDataLength eventDataSize).incrementHead).wrapHead).markFull

/-- The test of the execution loop. -/
def pending (params : SchedulerParams H) : Bool :=
  params.head != params.tail || params.isEmpty == false

def event (params : SchedulerParams H) (i : Nat) : SchedulerEvent H :=
  ⟨params.eventHandler i, (List.range (params.dataLength i)).map (params.dataBuffer i)⟩

def incrementTail (params : SchedulerParams H) : SchedulerParams H :=
  { params with tail := params.tail + 1 }

def wrapTail (params : SchedulerParams H) : SchedulerParams H :=
  if params.tail = schedulerMaxQueueSize then { params with tail := 0 } else params

def setEmpty (params : SchedulerParams H) : SchedulerParams H :=
  { params with isEmpty := true }

/-- The statements of the loop after the handler has returned. -/
def completeEvent (params : SchedulerParams H) : SchedulerParams H :=
  params.incrementTail.wrapTail.setEmpty

end SchedulerParams

def schedulerEventPut (params : SchedulerParams H) (pEventData : Option (Nat → UInt8))
    (eventDataSize : Nat) (eventHandler : H) : SchedulerParams H × SchedulerOperationStatus :=
  if eventDataSize ≤ schedulerMaxDataBufferSize then
    if params.isEmpty then
      (params.enqueue pEventData eventDataSize eventHandler, .success)
    else (params, .queueFull)
  else (params, .invalidLength)

def pointedBytes (pEventData : Option (Nat → UInt8)) (eventDataSize : Nat) : List UInt8 :=
  match pEventData with
  | some src => (List.range eventDataSize).map src
  | none => []

/-- What the other components use of a scheduler: the put, the event whose handler
the loop calls next, and the loop tail. -/
class EventQueue (Q : Type) (H : outParam Type) where
  put : Q → SchedulerEvent H → Q × SchedulerOperationStatus
  current : Q → Option (SchedulerEvent H)
  complete : Q → Q

instance : EventQueue (SchedulerParams H) H where
  put params e := schedulerEventPut params (some (pointer e.data)) e.data.length e.handler
  current params := if params.pending then some (params.event params.tail) else none
  complete params := params.completeEvent

@[simp] theorem pointedBytes_pointer (bytes : List UInt8) :
    pointedBytes (some (pointer bytes)) bytes.length = bytes :=
  pointer_read bytes

end ClosedLoopStepper.Scheduler
