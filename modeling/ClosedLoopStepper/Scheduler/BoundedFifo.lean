import ClosedLoopStepper.Foundations.Machine
import ClosedLoopStepper.Foundations.RingBuffer
import ClosedLoopStepper.Scheduler.EventQueue

/-! What the scheduler is for: a first-in first-out queue of at most fifty events.
The arrays refine it; a session then fixes the observable contract of the three
functions, the running event included. -/
namespace ClosedLoopStepper.Scheduler
open Foundations Common
variable {H : Type} {params : SchedulerParams H} {events : List (SchedulerEvent H)}

@[ext] structure BoundedFifo (H : Type) where
  events : List (SchedulerEvent H)
  bounded : events.length ≤ schedulerMaxQueueSize

def BoundedFifo.empty : BoundedFifo H := ⟨[], Nat.zero_le _⟩

def BoundedFifo.put (fifo : BoundedFifo H) (e : SchedulerEvent H) :
    BoundedFifo H × SchedulerOperationStatus :=
  if e.data.length ≤ schedulerMaxDataBufferSize then
    if h : fifo.events.length < schedulerMaxQueueSize then
      (⟨fifo.events ++ [e], by rw [List.length_append, List.length_singleton]; exact h⟩, .success)
    else (fifo, .queueFull)
  else (fifo, .invalidLength)

def BoundedFifo.complete (fifo : BoundedFifo H) : BoundedFifo H :=
  ⟨fifo.events.tail, by
    rw [List.length_tail]
    exact Nat.le_trans (Nat.sub_le _ _) fifo.bounded⟩

instance : EventQueue (BoundedFifo H) H where
  put := BoundedFifo.put
  current fifo := fifo.events.head?
  complete := BoundedFifo.complete

/-- The arrays, the cursors and the flag hold exactly these events, oldest first. -/
def Denotes (params : SchedulerParams H) (events : List (SchedulerEvent H)) : Prop :=
  RingBuffer.Holds schedulerMaxQueueSize params.event params.head params.tail
    (!params.isEmpty) events

private theorem wrapHead_incrementHead (params : SchedulerParams H) :
    params.incrementHead.wrapHead =
      { params with head := RingBuffer.next schedulerMaxQueueSize params.head } := by
  by_cases h : params.head + 1 = schedulerMaxQueueSize <;>
    simp [SchedulerParams.incrementHead, SchedulerParams.wrapHead, RingBuffer.next, h]

theorem wrapTail_incrementTail (params : SchedulerParams H) :
    params.incrementTail.wrapTail =
      { params with tail := RingBuffer.next schedulerMaxQueueSize params.tail } := by
  by_cases h : params.tail + 1 = schedulerMaxQueueSize <;>
    simp [SchedulerParams.incrementTail, SchedulerParams.wrapTail, RingBuffer.next, h]

private theorem markFull_eq (params : SchedulerParams H) :
    params.markFull =
      { params with isEmpty := params.isEmpty && !decide (params.head = params.tail) } := by
  by_cases h : params.head = params.tail <;> simp [SchedulerParams.markFull, h]

section Enqueue
variable (pEventData : Option (Nat → UInt8)) (eventDataSize : Nat) (eventHandler : H)

private theorem copyEventData_eq :
    params.copyEventData pEventData eventDataSize =
      { params with dataBuffer := (params.copyEventData pEventData eventDataSize).dataBuffer } := by
  rcases pEventData with _ | src
  · rfl
  · simp only [SchedulerParams.copyEventData]
    split_ifs <;> rfl

private theorem copyEventData_row (hnull : pEventData = none → eventDataSize = 0) :
    (List.range eventDataSize).map
        ((params.copyEventData pEventData eventDataSize).dataBuffer params.head) =
      pointedBytes pEventData eventDataSize := by
  rcases pEventData with _ | src
  · simp [hnull rfl, pointedBytes]
  · simp only [SchedulerParams.copyEventData, pointedBytes]
    split_ifs with hsize
    · simp only [Function.update_self]
      exact memcpy_read _ _ _
    · rw [not_not.mp hsize, List.range_zero, List.map_nil, List.map_nil]

private theorem copyEventData_other {i : Nat} (hi : i ≠ params.head) :
    (params.copyEventData pEventData eventDataSize).dataBuffer i = params.dataBuffer i := by
  rcases pEventData with _ | src
  · rfl
  · simp only [SchedulerParams.copyEventData]
    split_ifs
    · exact Function.update_of_ne hi _ _
    · rfl

/-- The whole critical section at once: one slot written, the head advanced, and
the flag taken down when the advanced head meets the tail. -/
theorem enqueue_eq :
    params.enqueue pEventData eventDataSize eventHandler =
      { eventHandler := Function.update params.eventHandler params.head eventHandler
        dataBuffer := (params.copyEventData pEventData eventDataSize).dataBuffer
        dataLength := Function.update params.dataLength params.head eventDataSize
        head := RingBuffer.next schedulerMaxQueueSize params.head
        tail := params.tail
        isEmpty := params.isEmpty &&
          !decide (RingBuffer.next schedulerMaxQueueSize params.head = params.tail) } := by
  rw [SchedulerParams.enqueue, wrapHead_incrementHead, markFull_eq, copyEventData_eq]
  rfl

private theorem enqueue_event (hnull : pEventData = none → eventDataSize = 0) :
    (params.enqueue pEventData eventDataSize eventHandler).event =
      Function.update params.event params.head
        ⟨eventHandler, pointedBytes pEventData eventDataSize⟩ := by
  funext i
  rw [enqueue_eq]
  by_cases hi : i = params.head
  · subst hi
    simp only [SchedulerParams.event, Function.update_self]
    rw [copyEventData_row pEventData eventDataSize hnull]
  · simp only [SchedulerParams.event, Function.update_of_ne hi,
      copyEventData_other pEventData eventDataSize hi]

/-- The cursors alone: writing the head slot appends while a slot is free, whatever
the flag says and wherever the reader has its tail. -/
theorem enqueue_layout {tail : Nat} (hnull : pEventData = none → eventDataSize = 0)
    (h : RingBuffer.Layout schedulerMaxQueueSize params.event params.head tail events)
    (hroom : events.length < schedulerMaxQueueSize) :
    RingBuffer.Layout schedulerMaxQueueSize
      (params.enqueue pEventData eventDataSize eventHandler).event
      (params.enqueue pEventData eventDataSize eventHandler).head tail
      (events ++ [⟨eventHandler, pointedBytes pEventData eventDataSize⟩]) := by
  rw [enqueue_event pEventData eventDataSize eventHandler hnull, enqueue_eq]
  exact h.push hroom _

/-- A put into a free slot appends its event. -/
theorem Denotes.enqueue (h : Denotes params events) (hroom : params.isEmpty = true)
    (hnull : pEventData = none → eventDataSize = 0) :
    Denotes (params.enqueue pEventData eventDataSize eventHandler)
      (events ++ [⟨eventHandler, pointedBytes pEventData eventDataSize⟩]) := by
  unfold Denotes at h ⊢
  rw [enqueue_event pEventData eventDataSize eventHandler hnull, enqueue_eq]
  rw [hroom] at h ⊢
  simpa using h.push ⟨eventHandler, pointedBytes pEventData eventDataSize⟩

end Enqueue

theorem completeEvent_eq (params : SchedulerParams H) :
    params.completeEvent =
      { params with
        tail := RingBuffer.next schedulerMaxQueueSize params.tail
        isEmpty := true } := by
  rw [SchedulerParams.completeEvent, wrapTail_incrementTail]
  rfl

theorem Denotes.init (params : SchedulerParams H) : Denotes (schedulerInit params).1 [] :=
  RingBuffer.Holds.empty (Nat.zero_lt_succ 49)

theorem Denotes.isEmpty_iff (h : Denotes params events) :
    params.isEmpty = true ↔ events.length < schedulerMaxQueueSize := by
  have hl := h.length_le
  have hf := h.full_iff
  cases he : params.isEmpty
  · have : events.length = schedulerMaxQueueSize := hf.mp (by simp [he])
    simp [this]
  · have : events.length ≠ schedulerMaxQueueSize := fun hn => by simpa [he] using hf.mpr hn
    simp only [true_iff]
    omega

theorem Denotes.pending_iff (h : Denotes params events) :
    params.pending = true ↔ events ≠ [] := by
  rw [← RingBuffer.Holds.nonempty_iff h]
  simp [SchedulerParams.pending]

theorem Denotes.complete {e : SchedulerEvent H} (h : Denotes params (e :: events)) :
    Denotes params.completeEvent events := by
  rw [completeEvent_eq]
  exact RingBuffer.Holds.pop h

/-! The refinement, operation by operation. -/

theorem put_refines {fifo : BoundedFifo H} (h : Denotes params fifo.events)
    (e : SchedulerEvent H) :
    Denotes (EventQueue.put params e).1 (EventQueue.put fifo e).1.events ∧
      (EventQueue.put params e).2 = (EventQueue.put fifo e).2 := by
  have hroom := h.isEmpty_iff
  simp only [EventQueue.put, schedulerEventPut, BoundedFifo.put]
  by_cases hsize : e.data.length ≤ schedulerMaxDataBufferSize
  · by_cases hfull : fifo.events.length < schedulerMaxQueueSize
    · rw [if_pos hsize, if_pos hsize, if_pos (hroom.mpr hfull), dif_pos hfull]
      refine ⟨?_, rfl⟩
      have := h.enqueue (some (pointer e.data)) e.data.length e.handler (hroom.mpr hfull) (by simp)
      rwa [pointedBytes_pointer] at this
    · rw [if_pos hsize, if_pos hsize, if_neg (fun hr => hfull (hroom.mp hr)), dif_neg hfull]
      exact ⟨h, rfl⟩
  · rw [if_neg hsize, if_neg hsize]
    exact ⟨h, rfl⟩

theorem current_refines {fifo : BoundedFifo H} (h : Denotes params fifo.events) :
    EventQueue.current params = EventQueue.current fifo := by
  simp only [EventQueue.current]
  cases he : fifo.events with
  | nil =>
    rw [he] at h
    rw [if_neg (by simpa using h.pending_iff), List.head?_nil]
  | cons e rest =>
    rw [he] at h
    rw [if_pos (h.pending_iff.mpr (List.cons_ne_nil e rest)), h.tail_slot, List.head?_cons]

theorem Denotes.current_eq (h : Denotes params events) :
    EventQueue.current params = events.head? := by
  let fifo : BoundedFifo H := ⟨events, h.length_le⟩
  have hfifo : Denotes params fifo.events := h
  exact current_refines hfifo

theorem complete_refines {fifo : BoundedFifo H} (h : Denotes params fifo.events)
    (hne : fifo.events ≠ []) :
    Denotes (EventQueue.complete params) (EventQueue.complete fifo).events := by
  obtain ⟨e, rest, he⟩ := List.exists_cons_of_ne_nil hne
  rw [he] at h
  simpa [EventQueue.complete, BoundedFifo.complete, he] using h.complete

def SchedulerParams.pendingCount (params : SchedulerParams H) : Nat :=
  if params.head = params.tail then
    if params.isEmpty then 0 else schedulerMaxQueueSize
  else (params.head + schedulerMaxQueueSize - params.tail) % schedulerMaxQueueSize

def SchedulerParams.fifo (params : SchedulerParams H) : BoundedFifo H where
  events := (List.range params.pendingCount).map fun k =>
    params.event ((params.tail + k) % schedulerMaxQueueSize)
  bounded := by
    have hmod := Nat.mod_lt (params.head + schedulerMaxQueueSize - params.tail)
      (show 0 < schedulerMaxQueueSize by decide)
    rw [List.length_map, List.length_range, SchedulerParams.pendingCount]
    split_ifs <;> omega

theorem Denotes.pendingCount_eq (h : Denotes params events) :
    params.pendingCount = events.length := by
  have htail := h.tail_lt
  have hle := h.length_le
  have hcursors := h.head_eq_tail_iff
  have hempty := h.isEmpty_iff
  rw [SchedulerParams.pendingCount]
  split_ifs with heq hroom
  · have := hempty.mp hroom
    have := hcursors.mp heq
    omega
  · have : ¬ events.length < schedulerMaxQueueSize := fun hlt => hroom (hempty.mpr hlt)
    omega
  · have hne := (not_congr hcursors).mp heq
    have hhead := h.head_eq
    have hmax : schedulerMaxQueueSize = 50 := rfl
    rw [hmax] at htail hle hne hhead ⊢
    omega

/-- Reading the arrays gives back the events they hold. -/
theorem Denotes.fifo_eq {fifo : BoundedFifo H} (h : Denotes params fifo.events) :
    params.fifo = fifo := by
  ext1
  change (List.range params.pendingCount).map _ = _
  rw [h.pendingCount_eq]
  exact h.items_eq.symm

end ClosedLoopStepper.Scheduler
