import ClosedLoopStepper.Foundations.Machine
import ClosedLoopStepper.Scheduler.Ledger
import ClosedLoopStepper.Device.Simulation

/-! The firmware over the scheduler with tickets. Without the tickets it is the firmware
over the arrays; with them, a run of the loop is seen to execute each accepted event once,
or never the one that is missing. -/
namespace ClosedLoopStepper.Device
open Foundations Scheduler

private theorem current_put {params : SchedulerParams Handler} (e : SchedulerEvent Handler)
    (h : (EventQueue.current params).isSome) :
    (EventQueue.current (EventQueue.put params e).1).isSome := by
  simp only [EventQueue.put, schedulerEventPut]
  split_ifs
  · have hpending : (params.enqueue (some (Common.pointer e.data)) e.data.length
        e.handler).pending = true := by
      rw [enqueue_eq]
      by_cases hfull : RingBuffer.next schedulerMaxQueueSize params.head = params.tail <;>
        simp [SchedulerParams.pending, hfull]
    simp only [EventQueue.current, hpending, if_true, Option.isSome_some]
  · exact h
  · exact h

/-- Without its tickets, the ledger is the scheduler. -/
theorem ledger_simulation :
    QueueSimulation fun (l : Ledger Handler) (params : SchedulerParams Handler) =>
      params = l.params.erase where
  put l params e h := by
    subst h
    exact congrArg Prod.fst (put_erase l.params l.accepted e)
  current l params h := by
    subst h
    have hpending : l.params.erase.pending = l.params.pending := rfl
    simp only [EventQueue.current, hpending]
    split_ifs <;> rfl
  complete l params h _ := by
    subst h
    simp only [EventQueue.complete, completeEvent_eq]
    rfl
  stays _ _ e _ h := current_put e h

section Turn
variable {fw : Firmware (Ledger Handler)} {pending : List (SchedulerEvent (Nat × Handler))}

private theorem executeEvent_empty (h : Denotes fw.scheduler.params []) : fw.executeEvent = fw := by
  have hcurrent : EventQueue.current fw.scheduler = none := by
    change (EventQueue.current fw.scheduler.params).map _ = none
    rw [h.current_eq]
    rfl
  rw [Firmware.executeEvent, hcurrent]

/-- A turn with events pending: the handler of the first puts others, then it is complete. -/
theorem executeEvent_cons {first : SchedulerEvent (Nat × Handler)}
    (h : Denotes fw.scheduler.params (first :: pending)) :
    ∃ added next, fw.scheduler.Extends (first :: pending) added next ∧
      fw.executeEvent.scheduler = EventQueue.complete next := by
  have hcurrent : EventQueue.current fw.scheduler = some ⟨first.handler.2, first.data⟩ := by
    change (EventQueue.current fw.scheduler.params).map _ = _
    rw [h.current_eq]
    rfl
  have hput : PutKeeps fun next => ∃ added, fw.scheduler.Extends (first :: pending) added next :=
    fun _ e ⟨_, hq⟩ => Ledger.put_extends hq e
  obtain ⟨added, hadded⟩ := hput.kept ⟨[], Ledger.Extends.refl h⟩ fun hkeep hself =>
    invoke_alongside hkeep hself ⟨first.handler.2, first.data⟩
  refine ⟨added, _, hadded, ?_⟩
  rw [Firmware.executeEvent, hcurrent]
  rfl

end Turn

/-- Conservation up to here, with at least so many accepted and so many executed. -/
def Served (accepted executed : Nat) (l : Ledger Handler) : Prop :=
  (∃ pending, l.Conserves pending) ∧ accepted ≤ l.accepted ∧ executed ≤ l.executed.length

private theorem served_put (accepted executed : Nat) : PutKeeps (Served accepted executed) := by
  rintro l e ⟨⟨pending, h⟩, haccepted, hexecuted⟩
  obtain ⟨added, hadded⟩ := Ledger.put_extends (Ledger.Extends.refl h.denotes) e
  refine ⟨⟨_, h.extends hadded⟩, ?_, ?_⟩
  · rw [hadded.accepted_eq]
    omega
  · rwa [hadded.executed_eq]

private theorem misses_put (ticket : Nat) :
    PutKeeps fun l : Ledger Handler => ∃ pending, l.Misses pending ticket := by
  rintro l e ⟨pending, h⟩
  obtain ⟨added, hadded⟩ := Ledger.put_extends (Ledger.Extends.refl h.denotes) e
  exact ⟨_, h.extends hadded⟩

section Run
variable {fw : Firmware (Ledger Handler)}

private theorem executeEvent_served {accepted executed : Nat}
    (h : Served accepted (min accepted executed) fw.scheduler) :
    Served accepted (min accepted (executed + 1)) fw.executeEvent.scheduler := by
  obtain ⟨⟨pending, hconserves⟩, haccepted, hexecuted⟩ := h
  cases pending with
  | nil =>
    have hall := hconserves.executed_all
    rw [executeEvent_empty hconserves.denotes]
    exact ⟨⟨[], hconserves⟩, haccepted, by omega⟩
  | cons first pending =>
    obtain ⟨added, next, hadded, hnext⟩ := executeEvent_cons hconserves.denotes
    obtain ⟨_, hexecuted', haccepted'⟩ := Ledger.complete_extends hadded
    have hmore := hadded.accepted_eq
    rw [hnext]
    refine ⟨⟨_, hconserves.complete hadded⟩, by omega, ?_⟩
    rw [hexecuted', List.length_append, List.length_singleton]
    omega

/-- As many executions as turns, until all that were accepted at the start are done. -/
theorem run_served {accepted : Nat} (later : List Input) {executed : Nat}
    (h : Served accepted (min accepted executed) fw.scheduler) :
    Served accepted (min accepted (executed + later.count .execute))
      (Machine.run Firmware.step fw later).scheduler := by
  induction later generalizing fw executed with
  | nil => exact h
  | cons i later ih =>
    by_cases hi : i = .execute
    · subst hi
      rw [List.count_cons_self, Nat.add_comm (later.count _), ← Nat.add_assoc]
      exact ih (executeEvent_served h)
    · rw [List.count_cons_of_ne hi]
      exact ih ((served_put _ _).interrupt h hi)

private theorem step_misses {ticket : Nat} (h : ∃ pending, fw.scheduler.Misses pending ticket)
    (i : Input) :
    ∃ pending, (fw.step i).scheduler.Misses pending ticket := by
  by_cases hi : i = .execute
  · subst hi
    change ∃ pending, fw.executeEvent.scheduler.Misses pending ticket
    obtain ⟨pending, hmisses⟩ := h
    cases pending with
    | nil =>
      rw [executeEvent_empty hmisses.denotes]
      exact ⟨[], hmisses⟩
    | cons first pending =>
      obtain ⟨added, next, hadded, hnext⟩ := executeEvent_cons hmisses.denotes
      rw [hnext]
      exact ⟨_, hmisses.complete hadded⟩
  · exact (misses_put ticket).interrupt h hi

private theorem run_misses {ticket : Nat} (later : List Input)
    (h : ∃ pending, fw.scheduler.Misses pending ticket) :
    ∃ pending, (Machine.run Firmware.step fw later).scheduler.Misses pending ticket :=
  Machine.run_invariant (P := fun fw : Firmware (Ledger Handler) =>
    ∃ pending, fw.scheduler.Misses pending ticket) later h fun _ i hfw => step_misses hfw i

end Run

/-- Whatever arrives later, once the loop has had a turn for each event accepted so far,
each of these has been executed exactly once. -/
def ExecutedOnce (fw : Firmware (Ledger Handler)) : Prop :=
  ∀ later : List Input, fw.scheduler.accepted ≤ later.count .execute →
    ∀ ticket < fw.scheduler.accepted,
      (Machine.run Firmware.step fw later).scheduler.executed.count ticket = 1

theorem executedOnce_of_conserves {fw : Firmware (Ledger Handler)}
    {pending : List (SchedulerEvent (Nat × Handler))} (h : fw.scheduler.Conserves pending) :
    ExecutedOnce fw := by
  intro later hturns ticket hticket
  have hserved : Served fw.scheduler.accepted (min fw.scheduler.accepted 0) fw.scheduler :=
    ⟨⟨pending, h⟩, Nat.le_refl _, by omega⟩
  obtain ⟨⟨pending', hconserves⟩, _, hexecuted⟩ := run_served later hserved
  exact hconserves.count_executed (by omega)

theorem not_executedOnce_of_misses {fw : Firmware (Ledger Handler)}
    {pending : List (SchedulerEvent (Nat × Handler))} {ticket : Nat}
    (h : fw.scheduler.Misses pending ticket) : ¬ ExecutedOnce fw := by
  intro honce
  let later : List Input := List.replicate fw.scheduler.accepted .execute
  have hcount : later.count .execute = fw.scheduler.accepted := List.count_replicate_self
  obtain ⟨_, hmisses⟩ := run_misses later ⟨pending, h⟩
  have hone := honce later (Nat.le_of_eq hcount.symm) ticket h.accepted
  rw [List.count_eq_zero_of_not_mem hmisses.not_executed] at hone
  cases hone

end ClosedLoopStepper.Device
