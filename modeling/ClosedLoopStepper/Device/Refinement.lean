import ClosedLoopStepper.Scheduler.BoundedFifo
import ClosedLoopStepper.Device.Simulation

/-! The firmware over the scheduler's arrays follows the firmware over a bounded queue,
step by step, so that what holds of the one in every run holds of the other. -/
namespace ClosedLoopStepper.Device
open Foundations Common Scheduler Ipc Encoder StepperMotor Application

def Firmware.view (fw : Firmware (SchedulerParams Handler)) : Firmware (BoundedFifo Handler) :=
  { fw with scheduler := fw.scheduler.fifo }

def Coherent (fw : Firmware (SchedulerParams Handler)) : Prop :=
  Denotes fw.scheduler fw.scheduler.fifo.events

/-- What each operation has to show: coherence is kept and the view follows. -/
def Keeps (fw : Firmware (SchedulerParams Handler)) (next : Firmware (BoundedFifo Handler)) : Prop :=
  Coherent fw ∧ fw.view = next

def startView : Firmware (BoundedFifo Handler) := .userApplicationInit .empty

abbrev Firmware.queue (fw : Firmware (BoundedFifo Handler)) : List (SchedulerEvent Handler) :=
  fw.scheduler.events

/-- A put of at most ten bytes appends while there is room, and else does nothing. -/
theorem put_queue {fw : Firmware (BoundedFifo Handler)} {e : SchedulerEvent Handler}
    (h : e.data.length ≤ schedulerMaxDataBufferSize) :
    (fw.put e).queue =
      if fw.queue.length < schedulerMaxQueueSize then fw.queue ++ [e] else fw.queue := by
  simp only [Firmware.put, EventQueue.put, BoundedFifo.put, if_pos h]
  by_cases hroom : fw.scheduler.events.length < schedulerMaxQueueSize
  · rw [dif_pos hroom, if_pos hroom]
  · rw [dif_neg hroom, if_neg hroom]

private theorem prefix_put (fifo : BoundedFifo Handler) (e : SchedulerEvent Handler) :
    fifo.events <+: (EventQueue.put fifo e).1.events := by
  simp only [EventQueue.put, BoundedFifo.put]
  split_ifs
  · exact List.prefix_append _ _
  · exact List.prefix_refl _
  · exact List.prefix_refl _

/-- The arrays simulate the queue that they stand for. -/
theorem arrays_simulation :
    QueueSimulation fun (params : SchedulerParams Handler) (fifo : BoundedFifo Handler) =>
      Denotes params fifo.events where
  put _ _ e h := (put_refines h e).1
  current _ _ h := current_refines h
  complete params fifo h hsome := by
    refine complete_refines h fun hnil => ?_
    have hnone : EventQueue.current fifo = none := congrArg List.head? hnil
    rw [hnone] at hsome
    cases hsome
  stays _ fifo e _ hsome := by
    obtain ⟨first, hfirst⟩ := Option.isSome_iff_exists.mp hsome
    obtain ⟨added, hadded⟩ := prefix_put fifo e
    change fifo.events.head? = some first at hfirst
    change (EventQueue.put fifo e).1.events.head?.isSome = true
    rw [← hadded, List.head?_append, hfirst]
    rfl

/-- Alongside the bounded queue, the arrays are coherent and the view is what is alongside. -/
theorem keeps_of_alongside {fw : Firmware (SchedulerParams Handler)}
    {fw' : Firmware (BoundedFifo Handler)}
    (h : Alongside (fun params fifo => Denotes params fifo.events) fw fw') : Keeps fw fw' := by
  obtain ⟨fifo, hdenotes, rfl⟩ := h
  have hfifo : fw.scheduler.fifo = fifo := hdenotes.fifo_eq
  constructor
  · rw [Coherent, hfifo]
    exact hdenotes
  · rw [Firmware.view, hfifo]
    rfl

theorem start_keeps : Keeps start startView := by
  have hempty : Denotes initialScheduler BoundedFifo.empty.events := Denotes.init _
  exact keeps_of_alongside (userApplicationInit_alongside arrays_simulation.put hempty)

/-- The arrays refine the bounded queue under the whole firmware. -/
theorem firmware_refinement :
    Machine.Refinement Firmware.step Firmware.step Firmware.view Coherent where
  keeps _ i h := (keeps_of_alongside (step_alongside arrays_simulation ⟨_, h, rfl⟩ i)).1
  follows _ i h := (keeps_of_alongside (step_alongside arrays_simulation ⟨_, h, rfl⟩ i)).2

end ClosedLoopStepper.Device
