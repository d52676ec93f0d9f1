import ClosedLoopStepper.Common.Interrupts
import ClosedLoopStepper.Scheduler.Session

/-! Puts one statement at a time, preempted wherever interrupts are enabled by
further puts to any depth. The critical section is masked, the test of the flag
before it is not. -/
namespace ClosedLoopStepper.Scheduler
open Foundations Common
variable {H : Type}

inductive PutPoint
  | sizeTest | flagTest | readPrimask | setPrimask
  | saveStatus | copyData | storeHandler | storeLength | headIncrement | headWrap | fullTest
  | restoreStatus | returned
  deriving DecidableEq, Repr

/-- A put in progress with its arguments and the interrupt status it has read. -/
structure PutFrame (H : Type) where
  data : Option (List UInt8)
  handler : H
  point : PutPoint
  status : Bool

def PutFrame.event (f : PutFrame H) : SchedulerEvent H := ⟨f.handler, f.data.getD []⟩

/-- The innermost put comes first; below it are the puts it has preempted. -/
structure PreemptedPut (H : Type) where
  params : SchedulerParams H
  interrupts : Interrupts
  frames : List (PutFrame H)
  running : Option (SchedulerEvent H)
  accepted : List (SchedulerEvent H)
  completed : Nat

/-- `call` enters a put, from the thread or from an interrupt; `advance` executes the
next statement of the innermost one. The loop runs between puts only. -/
inductive PutAction (H : Type)
  | call (data : Option (List UInt8)) (handler : H)
  | advance
  | execute
  | handlerReturn

namespace PreemptedPut

def start (params : SchedulerParams H) : PreemptedPut H :=
  ⟨(schedulerInit params).1, .initial, [], none, [], 0⟩

def advance (s : PreemptedPut H) (f : PutFrame H) (rest : List (PutFrame H)) : PreemptedPut H :=
  let size := (f.data.getD []).length
  match f.point with
  | .sizeTest =>
    let point := if size ≤ schedulerMaxDataBufferSize then .flagTest else .returned
    { s with frames := { f with point } :: rest }
  | .flagTest =>
    let point := if s.params.isEmpty then .readPrimask else .returned
    { s with frames := { f with point } :: rest }
  | .readPrimask =>
    { s with frames := { f with point := .setPrimask, status := s.interrupts.readStatus } :: rest }
  | .setPrimask =>
    { s with interrupts := s.interrupts.disable, frames := { f with point := .saveStatus } :: rest }
  | .saveStatus =>
    { s with
      interrupts := s.interrupts.saveStatus f.status
      frames := { f with point := .copyData } :: rest }
  | .copyData =>
    { s with
      params := s.params.copyEventData (f.data.map pointer) size
      frames := { f with point := .storeHandler } :: rest }
  | .storeHandler =>
    { s with
      params := s.params.storeEventHandler f.handler
      frames := { f with point := .storeLength } :: rest }
  | .storeLength =>
    { s with
      params := s.params.storeDataLength size
      frames := { f with point := .headIncrement } :: rest }
  | .headIncrement =>
    { s with params := s.params.incrementHead, frames := { f with point := .headWrap } :: rest }
  | .headWrap =>
    { s with params := s.params.wrapHead, frames := { f with point := .fullTest } :: rest }
  | .fullTest =>
    { s with
      params := s.params.markFull
      frames := { f with point := .restoreStatus } :: rest
      accepted := s.accepted ++ [f.event] }
  | .restoreStatus =>
    { s with interrupts := s.interrupts.restore, frames := { f with point := .returned } :: rest }
  | .returned => { s with frames := rest }

def step (s : PreemptedPut H) : PutAction H → PreemptedPut H
  | .call data handler =>
    if s.interrupts.primask then s
    else { s with frames := ⟨data, handler, .sizeTest, false⟩ :: s.frames }
  | .advance =>
    match s.frames with
    | [] => s
    | f :: rest => s.advance f rest
  | .execute =>
    if s.frames.isEmpty ∧ s.running.isNone ∧ s.params.pending then
      { s with running := some (s.params.event s.params.tail) }
    else s
  | .handlerReturn =>
    if s.frames.isEmpty ∧ s.running.isSome then
      { s with params := s.params.completeEvent, running := none, completed := s.completed + 1 }
    else s

def unexecuted (s : PreemptedPut H) : List (SchedulerEvent H) := s.accepted.drop s.completed

/-- The statements from masking the interrupts to the last write of the slot. -/
def StillToWrite : PutPoint → Prop
  | .saveStatus | .copyData | .storeHandler | .storeLength => True
  | _ => False

/-- What a put must respect: it writes no slot whose event has yet to be executed, no
more than fifty events are pending, and outside the critical section the arrays hold
exactly these. -/
structure Respected (s : PreemptedPut H) : Prop where
  slot_free : ∀ f rest, s.frames = f :: rest → StillToWrite f.point →
    ∀ k, k < s.unexecuted.length →
      (s.params.tail + k) % schedulerMaxQueueSize ≠ s.params.head
  bounded : s.unexecuted.length ≤ schedulerMaxQueueSize
  denotes : s.interrupts.primask = false → Denotes s.params s.unexecuted

def entering (s : PreemptedPut H) : Bool :=
  match s.frames with
  | [] => false
  | f :: _ => f.point = .setPrimask

/-- A put that is about to mask the interrupts still finds the flag set. -/
def EntersWithRoom (s : PreemptedPut H) : PutAction H → Prop
  | .advance => s.entering = true → s.params.isEmpty = true
  | _ => True

instance (s : PreemptedPut H) : ∀ a, Decidable (s.EntersWithRoom a)
  | .advance => inferInstanceAs (Decidable (_ → _))
  | .call _ _ | .execute | .handlerReturn => inferInstanceAs (Decidable True)

def Open (s : PreemptedPut H) : Prop :=
  s.interrupts.primask = false ∧ Denotes s.params s.unexecuted

/-- The part of the critical section a put has executed, applied to the arrays it found. -/
def soFar (f : PutFrame H) (found : SchedulerParams H) : SchedulerParams H :=
  let size := (f.data.getD []).length
  let copied := found.copyEventData (f.data.map pointer) size
  match f.point with
  | .storeHandler => copied
  | .storeLength => copied.storeEventHandler f.handler
  | .headIncrement => (copied.storeEventHandler f.handler).storeDataLength size
  | .headWrap => ((copied.storeEventHandler f.handler).storeDataLength size).incrementHead
  | .fullTest => ((copied.storeEventHandler f.handler).storeDataLength size).incrementHead.wrapHead
  | _ => found

/-- A put that can be preempted; if it has read the mask, it has read it clear. -/
def Suspended (f : PutFrame H) : Prop :=
  match f.point with
  | .sizeTest | .flagTest | .readPrimask | .returned => True
  | .setPrimask => f.status = false
  | _ => False

/-- The innermost put holds the mask; the saved word is clear once it is written. -/
def Masked (s : PreemptedPut H) (f : PutFrame H) : Prop :=
  s.interrupts.primask = true ∧
  match f.point with
  | .saveStatus =>
    f.status = false ∧ Denotes s.params s.unexecuted ∧ s.params.isEmpty = true
  | .copyData | .storeHandler | .storeLength | .headIncrement | .headWrap | .fullTest =>
    s.interrupts.systemUtilsSaveInterruptStatus = false ∧
      ∃ found, Denotes found s.unexecuted ∧ found.isEmpty = true ∧ s.params = soFar f found
  | .restoreStatus =>
    s.interrupts.systemUtilsSaveInterruptStatus = false ∧ Denotes s.params s.unexecuted
  | _ => False

def Stacked (s : PreemptedPut H) : Prop :=
  match s.frames with
  | [] => s.Open
  | f :: rest => (s.Open ∧ Suspended f ∨ s.Masked f) ∧ ∀ g ∈ rest, Suspended g

structure Coherent (s : PreemptedPut H) : Prop where
  stacked : s.Stacked
  completed_le : s.completed ≤ s.accepted.length
  running_eq : s.running.toList <+: s.unexecuted

variable {s : PreemptedPut H} {f : PutFrame H} {rest : List (PutFrame H)}

theorem start_coherent (params : SchedulerParams H) : Coherent (start params) where
  stacked := ⟨rfl, Denotes.init params⟩
  completed_le := Nat.le_refl 0
  running_eq := List.nil_prefix

private theorem found_head (f : PutFrame H) (found : SchedulerParams H) (h : StillToWrite f.point) :
    (soFar f found).head = found.head ∧ (soFar f found).tail = found.tail := by
  have hcopy : ∀ d n, (found.copyEventData d n).head = found.head ∧
      (found.copyEventData d n).tail = found.tail := by
    intro d n
    rcases d with _ | src
    · exact ⟨rfl, rfl⟩
    · unfold SchedulerParams.copyEventData
      split_ifs <;> exact ⟨rfl, rfl⟩
  unfold soFar
  cases hp : f.point <;> rw [hp] at h <;> first | exact h.elim | exact ⟨rfl, rfl⟩ | exact hcopy _ _

private theorem Masked.found (h : s.Masked f) :
    (∃ found, Denotes found s.unexecuted ∧
      (StillToWrite f.point →
        found.isEmpty = true ∧ s.params.head = found.head ∧ s.params.tail = found.tail)) := by
  obtain ⟨_, h⟩ := h
  cases hp : f.point <;> rw [hp] at h
  case saveStatus => exact ⟨s.params, h.2.1, fun _ => ⟨h.2.2, rfl, rfl⟩⟩
  case restoreStatus => exact ⟨s.params, h.2, fun hw => hw.elim⟩
  case copyData | storeHandler | storeLength | headIncrement | headWrap | fullTest =>
    obtain ⟨_, found, hd, hroom, hparams⟩ := h
    refine ⟨found, hd, fun hw => ⟨hroom, ?_⟩⟩
    rw [hparams]
    exact found_head f found (hp ▸ hw)
  all_goals exact h.elim

private theorem suspended_not_writing (h : Suspended f) : ¬ StillToWrite f.point := by
  unfold Suspended at h
  cases hp : f.point <;> rw [hp] at h <;> first | exact h.elim | exact id

private theorem Stacked.found (h : s.Stacked) : ∃ found, Denotes found s.unexecuted := by
  unfold Stacked at h
  split at h
  · exact ⟨s.params, h.2⟩
  · obtain ⟨⟨hopen, _⟩ | hmasked, _⟩ := h
    · exact ⟨s.params, hopen.2⟩
    · obtain ⟨found, hd, _⟩ := hmasked.found
      exact ⟨found, hd⟩

private theorem Stacked.at_rest (h : s.Stacked) (hi : s.interrupts.primask = false) :
    s.Open ∧ ∀ g ∈ s.frames, Suspended g := by
  unfold Stacked at h
  split at h
  · rename_i hframes
    exact ⟨h, by simp [hframes]⟩
  · rename_i f rest hframes
    obtain ⟨⟨hopen, hf⟩ | hmasked, hrest⟩ := h
    · exact ⟨hopen, by simpa [hframes] using ⟨hf, hrest⟩⟩
    · rw [hmasked.1] at hi
      cases hi

private theorem Coherent.respected (h : Coherent s) : Respected s where
  slot_free := by
    intro f rest hframes hw k hk
    have hstacked := h.stacked
    unfold Stacked at hstacked
    rw [hframes] at hstacked
    obtain ⟨⟨_, hf⟩ | hmasked, _⟩ := hstacked
    · exact absurd hw (suspended_not_writing hf)
    · obtain ⟨found, hd, hfree⟩ := hmasked.found
      obtain ⟨hroom, hhead, htail⟩ := hfree hw
      rw [hhead, htail]
      exact hd.toLayout.head_free (hd.isEmpty_iff.mp hroom) hk
  bounded := by
    obtain ⟨found, hd⟩ := h.stacked.found
    exact hd.length_le
  denotes := fun hi => (h.stacked.at_rest hi).1.2

/-! One step at a time. -/

private theorem call_coherent (h : Coherent s) (data : Option (List UInt8)) (handler : H) :
    Coherent (s.step (.call data handler)) := by
  cases hi : s.interrupts.primask
  · obtain ⟨hopen, hframes⟩ := h.stacked.at_rest hi
    simp only [step, hi, Bool.false_eq_true, if_false]
    exact ⟨⟨.inl ⟨hopen, trivial⟩, hframes⟩, h.completed_le, h.running_eq⟩
  · simpa [step, hi] using h

private theorem suspended_advance (h : Coherent s) (hopen : s.Open) (hf : Suspended f)
    (hrest : ∀ g ∈ rest, Suspended g)
    (hroom : f.point = .setPrimask → s.params.isEmpty = true) :
    Coherent (s.advance f rest) := by
  unfold advance
  cases hp : f.point <;> simp only [Suspended, hp] at hf ⊢
  case sizeTest =>
    refine ⟨⟨.inl ⟨hopen, ?_⟩, hrest⟩, h.completed_le, h.running_eq⟩
    simp only [Suspended]
    split_ifs <;> trivial
  case flagTest =>
    refine ⟨⟨.inl ⟨hopen, ?_⟩, hrest⟩, h.completed_le, h.running_eq⟩
    simp only [Suspended]
    split_ifs <;> trivial
  case readPrimask => exact ⟨⟨.inl ⟨hopen, hopen.1⟩, hrest⟩, h.completed_le, h.running_eq⟩
  case setPrimask =>
    exact ⟨⟨.inr ⟨rfl, hf, hopen.2, hroom hp⟩, hrest⟩, h.completed_le, h.running_eq⟩
  case returned =>
    refine ⟨?_, h.completed_le, h.running_eq⟩
    cases rest with
    | nil => exact hopen
    | cons g rest =>
      exact ⟨.inl ⟨hopen, hrest g (by simp)⟩, fun x hx => hrest x (by simp [hx])⟩

private theorem masked_advance (h : Coherent s) (hm : s.Masked f)
    (hrest : ∀ g ∈ rest, Suspended g) : Coherent (s.advance f rest) := by
  obtain ⟨hi, hm⟩ := hm
  unfold advance
  cases hp : f.point <;> simp only [hp] at hm ⊢
  case saveStatus =>
    obtain ⟨hstatus, hd, hroom⟩ := hm
    exact ⟨⟨.inr ⟨hi, hstatus, s.params, hd, hroom, rfl⟩, hrest⟩, h.completed_le, h.running_eq⟩
  case copyData | storeHandler | storeLength | headIncrement | headWrap =>
    obtain ⟨hsaved, found, hd, hroom, hparams⟩ := hm
    refine ⟨⟨.inr ⟨hi, hsaved, found, hd, hroom, ?_⟩, hrest⟩, h.completed_le, h.running_eq⟩
    simp only [soFar, hp] at hparams ⊢
    rw [hparams]
  case fullTest =>
    obtain ⟨hsaved, found, hd, hroom, hparams⟩ := hm
    have hdrop : (s.accepted ++ [f.event]).drop s.completed = s.unexecuted ++ [f.event] :=
      List.drop_append_of_le_length h.completed_le
    have hlen := h.completed_le
    refine ⟨⟨.inr ⟨hi, hsaved, ?_⟩, hrest⟩, by simp; omega, ?_⟩
    · simp only [unexecuted, soFar, hp] at hparams ⊢
      rw [hdrop, hparams]
      exact hd.putData f.data f.handler hroom
    · simp only [unexecuted]
      rw [hdrop]
      exact h.running_eq.trans (List.prefix_append _ _)
  case restoreStatus =>
    exact ⟨⟨.inl ⟨⟨hm.1, hm.2⟩, trivial⟩, hrest⟩, h.completed_le, h.running_eq⟩

private theorem advance_coherent (h : Coherent s) (hs : s.EntersWithRoom .advance) :
    Coherent (s.step .advance) := by
  have hstacked := h.stacked
  unfold Stacked at hstacked
  cases hframes : s.frames with
  | nil => simpa only [step, hframes] using h
  | cons f rest =>
    rw [hframes] at hstacked
    simp only [step, hframes]
    obtain ⟨⟨hopen, hf⟩ | hmasked, hrest⟩ := hstacked
    · refine suspended_advance h hopen hf hrest fun hp => hs ?_
      simp [entering, hframes, hp]
    · exact masked_advance h hmasked hrest

private theorem Coherent.idle_open (h : Coherent s) (hframes : s.frames = []) : s.Open := by
  have hstacked := h.stacked
  unfold Stacked at hstacked
  rwa [hframes] at hstacked

private theorem execute_coherent (h : Coherent s) : Coherent (s.step .execute) := by
  rw [step]
  split_ifs with hgo
  · obtain ⟨hframes, hnone, hpending⟩ := hgo
    rw [List.isEmpty_iff] at hframes
    have hopen := h.idle_open hframes
    obtain ⟨e, rest, he⟩ := List.exists_cons_of_ne_nil (hopen.2.pending_iff.mp hpending)
    have hd := hopen.2
    rw [he] at hd
    refine ⟨?_, h.completed_le, ?_⟩
    · simp only [Stacked, hframes]
      exact hopen
    · change [s.params.event s.params.tail] <+: s.unexecuted
      rw [hd.tail_slot, he]
      simp
  · exact h

private theorem return_coherent (h : Coherent s) : Coherent (s.step .handlerReturn) := by
  rw [step]
  split_ifs with hgo
  · obtain ⟨hframes, hsome⟩ := hgo
    obtain ⟨e, he⟩ := Option.isSome_iff_exists.mp hsome
    rw [List.isEmpty_iff] at hframes
    have hopen := h.idle_open hframes
    obtain ⟨waiting, hw⟩ := h.running_eq
    rw [he] at hw
    have hd := hopen.2
    rw [← hw] at hd
    have hlen : s.completed < s.accepted.length := by
      have := congrArg List.length hw
      simp [unexecuted] at this
      omega
    have htail : s.accepted.drop (s.completed + 1) = waiting := by
      rw [← List.tail_drop]
      exact congrArg List.tail hw.symm
    refine ⟨?_, hlen, List.nil_prefix⟩
    simp only [Stacked, hframes, Open, unexecuted]
    rw [htail]
    exact ⟨hopen.1, hd.complete⟩
  · exact h

theorem step_coherent (h : Coherent s) {a : PutAction H} (hs : s.EntersWithRoom a) :
    Coherent (s.step a) := by
  cases a with
  | call data handler => exact call_coherent h data handler
  | advance => exact advance_coherent h hs
  | execute => exact execute_coherent h
  | handlerReturn => exact return_coherent h

/-- A put that masks the interrupts on a full queue is set to overwrite the oldest event. -/
theorem full_entry_overwrites (h : Coherent s) (hentering : s.entering = true)
    (hfull : s.params.isEmpty = false) : ¬ Respected (s.step .advance) := by
  unfold entering at hentering
  split at hentering
  · cases hentering
  · rename_i f rest hframes
    have hp : f.point = .setPrimask := by simpa using hentering
    have hstacked := h.stacked
    unfold Stacked at hstacked
    rw [hframes] at hstacked
    have hopen : s.Open := by
      obtain ⟨⟨hopen, _⟩ | hmasked, _⟩ := hstacked
      · exact hopen
      · have := hmasked.2
        rw [hp] at this
        exact this.elim
    have hlen : s.unexecuted.length = schedulerMaxQueueSize :=
      hopen.2.full_iff.mp (by simp [hfull])
    have hmeet : s.params.head = s.params.tail := hopen.2.head_eq_tail_iff.mpr (.inr hlen)
    have htail : s.params.tail < schedulerMaxQueueSize := hopen.2.tail_lt
    intro hr
    simp only [step, hframes, advance, hp] at hr
    have hfree := hr.slot_free { f with point := .saveStatus } rest rfl trivial 0
      (by change 0 < s.unexecuted.length; rw [hlen]; decide)
    apply hfree
    change (s.params.tail + 0) % schedulerMaxQueueSize = s.params.head
    rw [Nat.add_zero, Nat.mod_eq_of_lt htail, hmeet]

private theorem entersWithRoom_of_respected (h : Coherent s) {a : PutAction H}
    (hr : Respected (s.step a)) : s.EntersWithRoom a := by
  cases a with
  | advance =>
    intro hentering
    by_contra hfull
    rw [Bool.not_eq_true] at hfull
    exact full_entry_overwrites h hentering hfull hr
  | _ => trivial

/-- Preempted puts respect the capacity throughout a run exactly when every put that
masks the interrupts still finds the flag set. -/
theorem puts_respected_iff (params : SchedulerParams H) (actions : List (PutAction H)) :
    Machine.Always step Respected (start params) actions ↔
      Machine.Meets step EntersWithRoom (start params) actions :=
  Machine.always_iff_meets (Machine.meets_true _ _) (start_coherent params)
    (fun _ h => h.respected) (fun _ _ h _ hs => step_coherent h hs)
    fun _ _ h _ hr => entersWithRoom_of_respected h hr

/-- A put that nothing interrupts is the put of the undivided scheduler. -/
theorem uninterrupted_put (s : PreemptedPut H) (hi : s.interrupts.primask = false)
    (data : Option (List UInt8)) (handler : H)
    (hsize : (data.getD []).length ≤ schedulerMaxDataBufferSize)
    (hroom : s.params.isEmpty = true) :
    Machine.run step s (.call data handler :: List.replicate 13 .advance) =
      { s with
        params := (putData s.params data handler).1
        interrupts := ⟨false, false⟩
        accepted := s.accepted ++ [⟨handler, data.getD []⟩] } := by
  rw [putData_accepted data handler hsize hroom]
  simp only [List.replicate, Machine.run_cons, Machine.run_nil, step, hi, Bool.false_eq_true,
    if_false, advance, hsize, hroom, if_true]
  have hmask := enable_disable s.interrupts
  rw [hi] at hmask
  rw [← hmask]
  rfl

/-- Forty-nine events are pending. A put of the byte 2 passes the test of the flag, is
preempted by a complete put that takes the last slot, and then goes on. -/
def nestedFill : List (PutAction Unit) :=
  let whole (byte : UInt8) : List (PutAction Unit) :=
    .call (some [byte]) () :: List.replicate 13 .advance
  (List.replicate 49 (whole 1)).flatten ++
    (.call (some [2]) () :: List.replicate 2 .advance) ++ whole 1 ++ List.replicate 11 .advance

/-- Fifty-one events are accepted and pending, and the slot of the oldest one, which
carries the byte 1, holds the byte 2. -/
theorem nested_put_overwrites :
    let s := Machine.run step (start (.zeroed ())) nestedFill
    s.frames.length = 0 ∧ s.unexecuted.length = 51 ∧
      s.unexecuted.head? = some ⟨(), [1]⟩ ∧ s.params.event s.params.tail = ⟨(), [2]⟩ := by
  decide +kernel

end PreemptedPut
end ClosedLoopStepper.Scheduler
