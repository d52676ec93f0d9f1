import ClosedLoopStepper.Scheduler.Session

/-! The scheduler with a ticket for every event that a put accepts. The ticket travels
through the arrays with the event's handler, so that an execution can be told from the
execution of another event with the same handler and data. -/
namespace ClosedLoopStepper.Scheduler
open Foundations Common
variable {H : Type}

/-- The scheduler's variables, the number of puts that have returned success, and the
tickets of the events that the loop has executed. -/
structure Ledger (H : Type) where
  params : SchedulerParams (Nat × H)
  accepted : Nat
  executed : List Nat

def SchedulerEvent.ticket (e : SchedulerEvent (Nat × H)) : Nat := e.handler.1

instance : EventQueue (Ledger H) H where
  put l e :=
    let put := EventQueue.put l.params ⟨(l.accepted, e.handler), e.data⟩
    ({ l with
      params := put.1
      accepted := if put.2 = .success then l.accepted + 1 else l.accepted }, put.2)
  current l := (EventQueue.current l.params).map fun e => ⟨e.handler.2, e.data⟩
  complete l :=
    { l with
      params := EventQueue.complete l.params
      executed := l.executed ++ ((EventQueue.current l.params).map SchedulerEvent.ticket).toList }

def SchedulerParams.erase (params : SchedulerParams (Nat × H)) : SchedulerParams H where
  eventHandler i := (params.eventHandler i).2
  dataBuffer := params.dataBuffer
  dataLength := params.dataLength
  head := params.head
  tail := params.tail
  isEmpty := params.isEmpty

section Erase
variable (params : SchedulerParams (Nat × H))

private theorem enqueue_erase (pEventData : Option (Nat → UInt8)) (eventDataSize ticket : Nat)
    (eventHandler : H) :
    (params.enqueue pEventData eventDataSize (ticket, eventHandler)).erase =
      params.erase.enqueue pEventData eventDataSize eventHandler := by
  have hhandler : (fun i => (Function.update params.eventHandler params.head
      (ticket, eventHandler) i).2) =
        Function.update params.erase.eventHandler params.head eventHandler := by
    funext i
    by_cases hi : i = params.head
    · rw [hi, Function.update_self, Function.update_self]
    · rw [Function.update_of_ne hi, Function.update_of_ne hi]
      rfl
  have hbuffer : (params.copyEventData pEventData eventDataSize).dataBuffer =
      (params.erase.copyEventData pEventData eventDataSize).dataBuffer := by
    rcases pEventData with _ | src
    · rfl
    · simp only [SchedulerParams.copyEventData]
      split_ifs <;> rfl
  rw [enqueue_eq, enqueue_eq, ← hbuffer]
  simp only [SchedulerParams.erase, hhandler]
  rfl

theorem put_erase (ticket : Nat) (e : SchedulerEvent H) :
    EventQueue.put params.erase e =
      ((EventQueue.put params ⟨(ticket, e.handler), e.data⟩).1.erase,
        (EventQueue.put params ⟨(ticket, e.handler), e.data⟩).2) := by
  have hflag : params.erase.isEmpty = params.isEmpty := rfl
  simp only [EventQueue.put, schedulerEventPut, hflag]
  split_ifs
  · rw [enqueue_erase]
  · rfl
  · rfl

end Erase

namespace Ledger
variable {l : Ledger H} {pending : List (SchedulerEvent (Nat × H))}

/-- What any puts make of a ledger whose arrays hold these events: the new events stand
behind them, with the next tickets. -/
structure Extends (l : Ledger H) (pending added : List (SchedulerEvent (Nat × H)))
    (next : Ledger H) : Prop where
  denotes : Denotes next.params (pending ++ added)
  tickets : added.map SchedulerEvent.ticket = List.range' l.accepted added.length
  accepted_eq : next.accepted = l.accepted + added.length
  executed_eq : next.executed = l.executed
  tail_eq : next.params.tail = l.params.tail

theorem Extends.refl (h : Denotes l.params pending) : Extends l pending [] l where
  denotes := by rwa [List.append_nil]
  tickets := rfl
  accepted_eq := rfl
  executed_eq := rfl
  tail_eq := rfl

/-- A put is refused and changes nothing, or its event goes to the end with a new ticket. -/
theorem put_extends {added : List (SchedulerEvent (Nat × H))} {next : Ledger H}
    (h : Extends l pending added next) (e : SchedulerEvent H) :
    ∃ added, Extends l pending added (EventQueue.put next e).1 := by
  have hput : EventQueue.put next.params ⟨(next.accepted, e.handler), e.data⟩ =
      putData next.params (some e.data) (next.accepted, e.handler) := rfl
  have hnext : (EventQueue.put next e).1 =
      { next with
        params := (putData next.params (some e.data) (next.accepted, e.handler)).1
        accepted := if (putData next.params (some e.data) (next.accepted, e.handler)).2 = .success
          then next.accepted + 1 else next.accepted } := rfl
  rcases putData_cases (some e.data) (next.accepted, e.handler) h.denotes with
    ⟨_, he⟩ | ⟨_, _, he⟩ | ⟨hsize, hroom, hs, hd⟩
  · rw [hnext, he]
    exact ⟨added, h⟩
  · rw [hnext, he]
    exact ⟨added, h⟩
  · have htail : (putData next.params (some e.data) (next.accepted, e.handler)).1.tail =
        next.params.tail := by
      rw [putData_accepted _ _ hsize (h.denotes.isEmpty_iff.mpr hroom), enqueue_eq]
    rw [List.append_assoc] at hd
    rw [hnext, if_pos hs]
    refine ⟨added ++ [⟨(next.accepted, e.handler), e.data⟩], hd, ?_, ?_, h.executed_eq,
      htail.trans h.tail_eq⟩
    · rw [List.map_append, h.tickets, List.length_append, List.length_singleton,
        List.range'_1_concat, ← h.accepted_eq]
      rfl
    · rw [List.length_append, List.length_singleton, ← Nat.add_assoc, h.accepted_eq]

/-- The end of a turn: the first event is off the queue, and its ticket is noted. -/
theorem complete_extends {first : SchedulerEvent (Nat × H)}
    {added : List (SchedulerEvent (Nat × H))} {next : Ledger H}
    (h : Extends l (first :: pending) added next) :
    Denotes (EventQueue.complete next).params (pending ++ added) ∧
      (EventQueue.complete next).executed = l.executed ++ [first.ticket] ∧
      (EventQueue.complete next).accepted = next.accepted := by
  have hdenotes := h.denotes
  rw [List.cons_append] at hdenotes
  refine ⟨hdenotes.complete, ?_, rfl⟩
  change next.executed ++ _ = _
  rw [hdenotes.current_eq, h.executed_eq]
  rfl

/-- Every accepted event has been executed or is pending, in the order of the tickets. -/
structure Conserves (l : Ledger H) (pending : List (SchedulerEvent (Nat × H))) : Prop where
  denotes : Denotes l.params pending
  conserved : l.executed ++ pending.map SchedulerEvent.ticket = List.range l.accepted

structure Misses (l : Ledger H) (pending : List (SchedulerEvent (Nat × H))) (ticket : Nat) :
    Prop where
  denotes : Denotes l.params pending
  accepted : ticket < l.accepted
  not_executed : ticket ∉ l.executed
  not_pending : ticket ∉ pending.map SchedulerEvent.ticket

section Extends
variable {added : List (SchedulerEvent (Nat × H))} {next : Ledger H}

theorem Conserves.extends (h : Conserves l pending) (hnext : Extends l pending added next) :
    Conserves next (pending ++ added) where
  denotes := hnext.denotes
  conserved := by
    have hrange := List.range'_append_1 (s := 0) (m := l.accepted) (n := added.length)
    rw [Nat.zero_add] at hrange
    rw [List.map_append, hnext.executed_eq, ← List.append_assoc, h.conserved, hnext.tickets,
      hnext.accepted_eq, List.range_eq_range', List.range_eq_range', hrange]

theorem Misses.extends {ticket : Nat} (h : Misses l pending ticket)
    (hnext : Extends l pending added next) : Misses next (pending ++ added) ticket where
  denotes := hnext.denotes
  accepted := by
    have haccepted := h.accepted
    have heq := hnext.accepted_eq
    omega
  not_executed := by
    rw [hnext.executed_eq]
    exact h.not_executed
  not_pending := by
    have haccepted := h.accepted
    rw [List.map_append, List.mem_append, not_or, hnext.tickets, List.mem_range'_1]
    exact ⟨h.not_pending, by omega⟩

/-- The first event's ticket moves from the queue to the executed ones. -/
theorem Conserves.complete {first : SchedulerEvent (Nat × H)} (h : Conserves l (first :: pending))
    (hnext : Extends l (first :: pending) added next) :
    Conserves (EventQueue.complete next) (pending ++ added) := by
  obtain ⟨hdenotes, hexecuted, haccepted⟩ := complete_extends hnext
  have hconserved := (h.extends hnext).conserved
  rw [hnext.executed_eq] at hconserved
  refine ⟨hdenotes, ?_⟩
  rw [hexecuted, haccepted, ← hconserved, List.append_assoc]
  rfl

theorem Misses.complete {first : SchedulerEvent (Nat × H)} {ticket : Nat}
    (h : Misses l (first :: pending) ticket)
    (hnext : Extends l (first :: pending) added next) :
    Misses (EventQueue.complete next) (pending ++ added) ticket := by
  obtain ⟨hdenotes, hexecuted, haccepted⟩ := complete_extends hnext
  have hmisses := h.extends hnext
  have hfirst : ticket ≠ first.ticket := fun heq =>
    h.not_pending (List.mem_map.mpr ⟨first, List.mem_cons_self, heq.symm⟩)
  refine ⟨hdenotes, ?_, ?_, fun hmem => hmisses.not_pending (List.mem_cons_of_mem _ hmem)⟩
  · rw [haccepted]
    exact hmisses.accepted
  · rw [hexecuted, List.mem_append, List.mem_singleton, not_or]
    exact ⟨h.not_executed, hfirst⟩

end Extends

/-- The executed tickets are the first ones, each of them once. -/
theorem Conserves.count_executed (h : Conserves l pending) {ticket : Nat}
    (hticket : ticket < l.executed.length) : l.executed.count ticket = 1 := by
  have hle : l.executed.length ≤ l.accepted := by
    have hlength := congrArg List.length h.conserved
    rw [List.length_append, List.length_range] at hlength
    omega
  have htake : l.executed = (List.range l.accepted).take l.executed.length := by
    rw [← h.conserved, List.take_left]
  rw [htake, List.take_range, Nat.min_eq_left hle, List.range_eq_range', List.count_range_1']
  exact if_pos ⟨Nat.zero_le _, by omega⟩

/-- With nothing pending everything that was accepted has been executed. -/
theorem Conserves.executed_all (h : Conserves l []) : l.executed.length = l.accepted := by
  have hlength := congrArg List.length h.conserved
  rwa [List.map_nil, List.append_nil, List.length_range] at hlength

end Ledger
end ClosedLoopStepper.Scheduler
