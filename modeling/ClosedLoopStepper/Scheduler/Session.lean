import ClosedLoopStepper.Scheduler.BoundedFifo

/-! Sessions with the scheduler: puts between and inside handlers, entries of the
execution loop and returns of the running handler, with a record of what was
accepted, invoked and completed. -/
namespace ClosedLoopStepper.Scheduler
open Foundations Common
variable {H : Type}

/-- `put none` is a put of NULL with size zero; `put (some bytes)` points to the bytes. -/
inductive Call (H : Type)
  | put (data : Option (List UInt8)) (handler : H)
  | execute
  | handlerReturn

structure Session (H : Type) where
  params : SchedulerParams H
  running : Option (SchedulerEvent H)
  accepted : List (SchedulerEvent H)
  invoked : List (SchedulerEvent H)
  completed : Nat

def putData (params : SchedulerParams H) (data : Option (List UInt8)) (handler : H) :
    SchedulerParams H × SchedulerOperationStatus :=
  schedulerEventPut params (data.map pointer) (data.getD []).length handler

namespace Session

def start (params : SchedulerParams H) : Session H :=
  ⟨(schedulerInit params).1, none, [], [], 0⟩

/-- `execute` is one turn of the loop up to the handler call and does nothing while
a handler runs; `handlerReturn` is the rest of that turn. -/
def step (s : Session H) : Call H → Session H
  | .put data handler =>
    let (params, status) := putData s.params data handler
    { s with
      params
      accepted := if status = .success then s.accepted ++ [⟨handler, data.getD []⟩]
        else s.accepted }
  | .execute =>
    if s.running = none ∧ s.params.pending then
      let e := s.params.event s.params.tail
      { s with running := some e, invoked := s.invoked ++ [e] }
    else s
  | .handlerReturn =>
    match s.running with
    | none => s
    | some _ =>
      { s with params := s.params.completeEvent, running := none, completed := s.completed + 1 }

def outstanding (s : Session H) : Nat := s.accepted.length - s.completed

/-- The arrays hold the running event, then the accepted events not yet invoked. -/
structure Coherent (s : Session H) (waiting : List (SchedulerEvent H)) : Prop where
  denotes : Denotes s.params (s.running.toList ++ waiting)
  accepted_eq : s.accepted = s.invoked ++ waiting
  completed_eq : s.completed + s.running.toList.length = s.invoked.length

end Session

section Put
variable {params : SchedulerParams H} {events : List (SchedulerEvent H)}
  (data : Option (List UInt8)) (handler : H)

theorem pointedBytes_data :
    pointedBytes (data.map pointer) (data.getD []).length = data.getD [] := by
  cases data with
  | none => rfl
  | some bytes => simp

theorem putData_accepted (hsize : (data.getD []).length ≤ schedulerMaxDataBufferSize)
    (hroom : params.isEmpty = true) :
    putData params data handler =
      (params.enqueue (data.map pointer) (data.getD []).length handler, .success) := by
  rw [putData, schedulerEventPut, if_pos hsize, if_pos hroom]

theorem putData_rejected
    (h : ¬ ((data.getD []).length ≤ schedulerMaxDataBufferSize ∧ params.isEmpty = true)) :
    (putData params data handler).1 = params ∧ (putData params data handler).2 ≠ .success := by
  unfold putData schedulerEventPut
  split_ifs with hsize hroom
  · exact absurd ⟨hsize, hroom⟩ h
  · exact ⟨rfl, by simp⟩
  · exact ⟨rfl, by simp⟩

theorem Denotes.putData (h : Denotes params events) (hroom : params.isEmpty = true) :
    Denotes (params.enqueue (data.map pointer) (data.getD []).length handler)
      (events ++ [⟨handler, data.getD []⟩]) := by
  have := h.enqueue (data.map pointer) (data.getD []).length handler hroom (by simp +contextual)
  rwa [pointedBytes_data] at this

/-- The three answers of a put and what each leaves behind. -/
theorem putData_cases (h : Denotes params events) :
    (schedulerMaxDataBufferSize < (data.getD []).length ∧
      putData params data handler = (params, .invalidLength)) ∨
    ((data.getD []).length ≤ schedulerMaxDataBufferSize ∧
      events.length = schedulerMaxQueueSize ∧ putData params data handler = (params, .queueFull)) ∨
    ((data.getD []).length ≤ schedulerMaxDataBufferSize ∧
      events.length < schedulerMaxQueueSize ∧ (putData params data handler).2 = .success ∧
      Denotes (putData params data handler).1 (events ++ [⟨handler, data.getD []⟩])) := by
  have hle : events.length ≤ schedulerMaxQueueSize := h.length_le
  by_cases hsize : (data.getD []).length ≤ schedulerMaxDataBufferSize
  · by_cases hfull : events.length < schedulerMaxQueueSize
    · have hroom := h.isEmpty_iff.mpr hfull
      rw [putData_accepted data handler hsize hroom]
      exact .inr (.inr ⟨hsize, hfull, rfl, h.putData data handler hroom⟩)
    · have hroom : ¬ params.isEmpty = true := fun hr => hfull (h.isEmpty_iff.mp hr)
      refine .inr (.inl ⟨hsize, by omega, ?_⟩)
      rw [putData, schedulerEventPut, if_pos hsize, if_neg hroom]
  · refine .inl ⟨by omega, ?_⟩
    rw [putData, schedulerEventPut, if_neg hsize]

end Put

namespace Session
variable {s : Session H} {waiting : List (SchedulerEvent H)}

theorem start_coherent (params : SchedulerParams H) : Coherent (start params) [] where
  denotes := Denotes.init params
  accepted_eq := rfl
  completed_eq := rfl

private theorem put_coherent (h : Coherent s waiting) (data : Option (List UInt8)) (handler : H) :
    ∃ waiting', Coherent (s.step (.put data handler)) waiting' := by
  rcases putData_cases data handler h.denotes with ⟨_, he⟩ | ⟨_, _, he⟩ | ⟨_, _, hs, hd⟩
  · exact ⟨waiting, by simpa [step, he] using h⟩
  · exact ⟨waiting, by simpa [step, he] using h⟩
  · refine ⟨waiting ++ [⟨handler, data.getD []⟩], ?_, ?_, h.completed_eq⟩
    · simpa [step] using hd
    · simp [step, hs, h.accepted_eq]

private theorem execute_coherent (h : Coherent s waiting) :
    ∃ waiting', Coherent (s.step .execute) waiting' := by
  by_cases hgo : s.running = none ∧ s.params.pending
  · obtain ⟨hnone, hpending⟩ := hgo
    have hd := h.denotes
    rw [hnone, Option.toList_none, List.nil_append] at hd
    obtain ⟨e, rest, rfl⟩ := List.exists_cons_of_ne_nil (hd.pending_iff.mp hpending)
    have hslot : s.params.event s.params.tail = e := hd.tail_slot
    refine ⟨rest, ?_, ?_, ?_⟩
    · simpa [step, hnone, hpending, hslot] using hd
    · simp [step, hnone, hpending, hslot, h.accepted_eq]
    · simpa [step, hnone, hpending] using h.completed_eq
  · exact ⟨waiting, by simpa [step, hgo] using h⟩

private theorem return_coherent (h : Coherent s waiting) :
    ∃ waiting', Coherent (s.step .handlerReturn) waiting' := by
  refine ⟨waiting, ?_⟩
  cases hr : s.running with
  | none => simpa [step, hr] using h
  | some e =>
    have hd := h.denotes
    have hc := h.completed_eq
    rw [hr] at hd hc
    refine ⟨?_, ?_, ?_⟩
    · simpa [step, hr] using hd.complete
    · simpa [step, hr] using h.accepted_eq
    · simpa [step, hr] using hc

/-- Every call keeps the arrays coherent with the record. -/
theorem step_coherent (h : ∃ waiting, Coherent s waiting) (c : Call H) :
    ∃ waiting, Coherent (s.step c) waiting := by
  obtain ⟨waiting, h⟩ := h
  cases c with
  | put data handler => exact put_coherent h data handler
  | execute => exact execute_coherent h
  | handlerReturn => exact return_coherent h

theorem run_coherent (params : SchedulerParams H) (calls : List (Call H)) :
    ∃ waiting, Coherent (Machine.run step (start params) calls) waiting :=
  Machine.run_invariant (P := fun s => ∃ waiting, Coherent s waiting) calls
    ⟨[], start_coherent params⟩ fun _ c h => step_coherent h c

theorem Coherent.outstanding_eq (h : Coherent s waiting) :
    s.outstanding = (s.running.toList ++ waiting).length := by
  have hc := h.completed_eq
  rw [outstanding, h.accepted_eq, List.length_append, List.length_append]
  omega

private theorem Coherent.running_slot (h : Coherent s waiting) {e : SchedulerEvent H}
    (he : s.running = some e) : s.params.event s.params.tail = e := by
  have hd := h.denotes
  rw [he] at hd
  exact hd.tail_slot

/-- A put is answered by its size and the number of outstanding events alone. -/
theorem Coherent.put_answer (h : Coherent s waiting) (data : Option (List UInt8)) (handler : H) :
    let size := (data.getD []).length
    let status := (putData s.params data handler).2
    (status = .invalidLength ↔ schedulerMaxDataBufferSize < size) ∧
    (status = .queueFull ↔
      size ≤ schedulerMaxDataBufferSize ∧ s.outstanding = schedulerMaxQueueSize) ∧
    (status = .success ↔
      size ≤ schedulerMaxDataBufferSize ∧ s.outstanding < schedulerMaxQueueSize) := by
  intro size status
  have hout := h.outstanding_eq
  rcases putData_cases data handler h.denotes with ⟨hsize, he⟩ | ⟨hsize, hlen, he⟩ | ⟨hsize, hlen, hs, _⟩
  · have hstatus : status = .invalidLength := congrArg Prod.snd he
    refine ⟨by simpa [hstatus] using hsize, by simp [hstatus]; omega, by simp [hstatus]; omega⟩
  · have hstatus : status = .queueFull := congrArg Prod.snd he
    refine ⟨by simp [hstatus]; omega, by simp [hstatus]; omega, by simp [hstatus]; omega⟩
  · have hstatus : status = .success := hs
    refine ⟨by simp [hstatus]; omega, by simp [hstatus]; omega, by simp [hstatus]; omega⟩

/-- A rejected put changes nothing and no put touches the running event. -/
theorem Coherent.put_frame (h : Coherent s waiting) (data : Option (List UInt8)) (handler : H) :
    let put := putData s.params data handler
    (put.2 ≠ .success → put.1 = s.params) ∧
    (∀ e, s.running = some e → put.1.event put.1.tail = e) := by
  intro put
  rcases putData_cases data handler h.denotes with ⟨_, he⟩ | ⟨_, _, he⟩ | ⟨_, _, hs, hd⟩
  · have hput : put.1 = s.params := congrArg Prod.fst he
    exact ⟨fun _ => hput, fun e hr => by rw [hput]; exact h.running_slot hr⟩
  · have hput : put.1 = s.params := congrArg Prod.fst he
    exact ⟨fun _ => hput, fun e hr => by rw [hput]; exact h.running_slot hr⟩
  · refine ⟨fun hn => absurd hs hn, fun e hr => ?_⟩
    rw [hr, List.append_assoc] at hd
    exact hd.tail_slot

/-- Between turns the loop test finds the next accepted event not yet invoked. -/
theorem Coherent.next_event (h : Coherent s waiting) (hnone : s.running = none) :
    (s.params.pending →
      s.accepted[s.invoked.length]? = some (s.params.event s.params.tail)) ∧
    (s.params.pending = false → s.invoked = s.accepted) := by
  have hd := h.denotes
  rw [hnone, Option.toList_none, List.nil_append] at hd
  rw [h.accepted_eq]
  cases waiting with
  | nil =>
    have hidle : ¬ s.params.pending = true := fun hp => hd.pending_iff.mp hp rfl
    exact ⟨fun hp => absurd hp hidle, fun _ => (List.append_nil _).symm⟩
  | cons e rest =>
    have hpending := hd.pending_iff.mpr (List.cons_ne_nil e rest)
    refine ⟨fun _ => ?_, fun hidle => by rw [hpending] at hidle; cases hidle⟩
    rw [hd.tail_slot]
    simp

end Session

/-- The scheduler is a bounded first-in first-out queue. In every session, a put
is answered by its size and by the number of outstanding events alone, a rejected
put changes nothing and no put touches the running event; the invoked events are
the accepted ones in order, each with the bytes put, and the loop stops only when
none is left. -/
theorem scheduler_refines_bounded_fifo (params : SchedulerParams H) (calls : List (Call H)) :
    let s := Machine.run Session.step (Session.start params) calls
    (∀ data handler,
      let size := (data.getD []).length
      let put := putData s.params data handler
      (put.2 = .invalidLength ↔ schedulerMaxDataBufferSize < size) ∧
      (put.2 = .queueFull ↔
        size ≤ schedulerMaxDataBufferSize ∧ s.outstanding = schedulerMaxQueueSize) ∧
      (put.2 = .success ↔
        size ≤ schedulerMaxDataBufferSize ∧ s.outstanding < schedulerMaxQueueSize) ∧
      (put.2 ≠ .success → put.1 = s.params) ∧
      (∀ e, s.running = some e →
        s.params.event s.params.tail = e ∧ put.1.event put.1.tail = e)) ∧
    s.outstanding ≤ schedulerMaxQueueSize ∧
    s.invoked <+: s.accepted ∧
    (s.running = none → s.params.pending →
      s.accepted[s.invoked.length]? = some (s.params.event s.params.tail)) ∧
    (s.running = none → s.params.pending = false → s.invoked = s.accepted) := by
  intro s
  obtain ⟨waiting, h⟩ := Session.run_coherent params calls
  change Session.Coherent s waiting at h
  refine ⟨fun data handler => ?_, ?_, ?_, fun hnone => (h.next_event hnone).1,
    fun hnone => (h.next_event hnone).2⟩
  · obtain ⟨hlength, hfull, hsuccess⟩ := h.put_answer data handler
    obtain ⟨hrejected, hrunning⟩ := h.put_frame data handler
    exact ⟨hlength, hfull, hsuccess, hrejected, fun e he => ⟨h.running_slot he, hrunning e he⟩⟩
  · rw [h.outstanding_eq]
    exact h.denotes.length_le
  · rw [h.accepted_eq]
    exact List.prefix_append _ _

end ClosedLoopStepper.Scheduler
