import ClosedLoopStepper.Scheduler.PreemptedExecute

/-! The loop against puts that no longer test the flag, as one does that has passed its
test and is preempted before it masks the interrupts. The cursors count modulo fifty: what
such a put oversteps is lost in fifties, and no later step makes up for it. -/
namespace ClosedLoopStepper.Scheduler.PreemptedExecute
open Foundations Common
variable {H : Type}

def force (s : PreemptedExecute H) (data : Option (List UInt8)) (handler : H) :
    PreemptedExecute H :=
  { s with
    params := s.params.enqueue (data.map pointer) (data.getD []).length handler
    accepted := s.accepted ++ [⟨handler, data.getD []⟩] }

def handled : ExecutePoint → Nat
  | .loopTest | .handlerCall => 0
  | .tailIncrement | .tailWrap | .flagSet => 1

def unfinished (s : PreemptedExecute H) : Nat := s.outstanding + handled s.point

def gap (params : SchedulerParams H) : Nat :=
  RingBuffer.gap schedulerMaxQueueSize params.head params.tail

/-- The events that the cursors and the flag still show to the loop. -/
def shown (s : PreemptedExecute H) : Nat :=
  match s.point with
  | .loopTest | .handlerCall => s.params.pendingCount
  | .tailIncrement => gap s.params.incrementTail
  | .tailWrap | .flagSet => gap s.params

/-- What has been accepted has been executed, is still shown or belongs to one of the
fifties that are lost. As long as none is, a flag that is down tells the truth. -/
structure Tallied (s : PreemptedExecute H) (lost : Nat) : Prop where
  head_lt : s.params.head < schedulerMaxQueueSize
  tail_le : s.params.tail ≤ schedulerMaxQueueSize
  tail_lt : s.point ≠ .tailWrap → s.params.tail < schedulerMaxQueueSize
  pending : s.point = .handlerCall ∨ s.point = .tailIncrement → s.params.pending = true
  accepted_eq : s.accepted.length = s.executed.length + s.shown + schedulerMaxQueueSize * lost
  full_eq : lost = 0 → s.params.isEmpty = false →
    s.shown + handled s.point = schedulerMaxQueueSize

variable {s : PreemptedExecute H} {params : SchedulerParams H} {lost : Nat}

theorem start_tallied (params : SchedulerParams H) : Tallied (start params) 0 where
  head_lt := Nat.zero_lt_succ 49
  tail_le := Nat.zero_le _
  tail_lt := fun _ => Nat.zero_lt_succ 49
  pending := fun h => by rcases h with h | h <;> cases h
  accepted_eq := rfl
  full_eq := fun _ h => by cases h

theorem Tallied.outstanding_eq (h : Tallied s lost) :
    s.outstanding = s.shown + schedulerMaxQueueSize * lost := by
  have := h.accepted_eq
  rw [outstanding]
  omega

/-! The cursors, one statement at a time. -/

private theorem max_eq : schedulerMaxQueueSize = 50 := rfl

private theorem pendingCount_eq (hhead : params.head < schedulerMaxQueueSize)
    (htail : params.tail < schedulerMaxQueueSize) :
    params.pendingCount =
      if gap params = 0 then if params.isEmpty then 0 else schedulerMaxQueueSize
      else gap params := by
  simp only [SchedulerParams.pendingCount, gap, RingBuffer.gap_eq_zero_iff hhead htail]
  rfl

private theorem pending_iff (hhead : params.head < schedulerMaxQueueSize)
    (htail : params.tail < schedulerMaxQueueSize) :
    params.pending = true ↔ 0 < params.pendingCount := by
  have hgap := RingBuffer.gap_eq_zero_iff hhead htail
  rw [pendingCount_eq hhead htail]
  split_ifs with hzero hempty
  · simp [SchedulerParams.pending, hgap.mp hzero, hempty]
  · simp [SchedulerParams.pending, hempty, max_eq]
  · have hne : params.head ≠ params.tail := fun he => hzero (hgap.mpr he)
    simp [SchedulerParams.pending, hne, Nat.pos_of_ne_zero hzero]

private theorem next_gap_incrementTail (hhead : params.head < schedulerMaxQueueSize)
    (htail : params.tail < schedulerMaxQueueSize) :
    RingBuffer.next schedulerMaxQueueSize (gap params.incrementTail) = gap params :=
  RingBuffer.next_gap_succ_tail hhead htail

private theorem gap_wrapTail (hhead : params.head < schedulerMaxQueueSize) :
    gap params.wrapTail = gap params := by
  unfold SchedulerParams.wrapTail
  split_ifs with hwrap
  · simp only [gap, hwrap]
    exact (RingBuffer.gap_wrap hhead).symm
  · rfl

private theorem wrapTail_fields (htail : params.tail ≤ schedulerMaxQueueSize) :
    params.wrapTail.head = params.head ∧ params.wrapTail.tail < schedulerMaxQueueSize ∧
      params.wrapTail.isEmpty = params.isEmpty := by
  unfold SchedulerParams.wrapTail
  split_ifs with hwrap
  · exact ⟨rfl, Nat.zero_lt_succ 49, rfl⟩
  · exact ⟨rfl, Nat.lt_of_le_of_ne htail hwrap, rfl⟩

private theorem pendingCount_setEmpty (hhead : params.head < schedulerMaxQueueSize)
    (htail : params.tail < schedulerMaxQueueSize) : params.setEmpty.pendingCount = gap params := by
  have hcount : params.setEmpty.pendingCount = if gap params = 0 then 0 else gap params :=
    pendingCount_eq hhead htail
  rw [hcount]
  split_ifs with hzero
  · exact hzero.symm
  · rfl

/-- Only the call of a handler takes an event from those that are shown. -/
private theorem advance_shown (h : Tallied s lost) :
    s.advance.shown + (if s.point = .handlerCall then 1 else 0) = s.shown := by
  have hhead := h.head_lt
  have hlt := h.tail_lt
  cases hp : s.point with
  | loopTest =>
    by_cases hgo : s.params.pending = true <;> simp [advance, shown, hp, hgo]
  | handlerCall =>
    have htail := hlt (by simp [hp])
    have hcount := (pending_iff hhead htail).mp (h.pending (.inl hp))
    have hnext := next_gap_incrementTail hhead htail
    simp only [advance, shown, hp, if_true]
    rw [pendingCount_eq hhead htail] at hcount ⊢
    unfold RingBuffer.next at hnext
    split_ifs at hcount hnext ⊢ <;> omega
  | tailIncrement => simp [advance, shown, hp]
  | tailWrap => simp [advance, shown, hp, gap_wrapTail hhead]
  | flagSet => simp [advance, shown, hp, pendingCount_setEmpty hhead (hlt (by simp [hp]))]

/-- One statement of the loop, the call of the handler included, keeps the tally. -/
theorem advance_tallied (h : Tallied s lost) : Tallied s.advance lost := by
  have hshown := advance_shown h
  obtain ⟨hhead, hle, hlt, hpending, haccepted, hfull⟩ := h
  rw [← hshown] at haccepted hfull
  cases hp : s.point with
  | loopTest =>
    have htail := hlt (by simp [hp])
    by_cases hgo : s.params.pending = true
    · simp only [advance, hp, hgo, if_true] at haccepted hfull ⊢
      exact ⟨hhead, hle, fun _ => htail, fun _ => hgo, haccepted, hfull⟩
    · simp only [advance, hp, hgo] at haccepted hfull ⊢
      exact ⟨hhead, hle, fun _ => htail, by simp, haccepted, hfull⟩
  | handlerCall =>
    simp only [advance, hp, if_true] at haccepted hfull ⊢
    refine ⟨hhead, hle, fun _ => hlt (by simp [hp]), fun _ => hpending (.inl hp), ?_, hfull⟩
    simp only [List.length_append, List.length_singleton]
    omega
  | tailIncrement =>
    simp only [advance, hp] at haccepted hfull ⊢
    exact ⟨hhead, hlt (by simp [hp]), fun hne => absurd rfl hne, by simp, haccepted, hfull⟩
  | tailWrap =>
    obtain ⟨hhead', htail', hempty'⟩ := wrapTail_fields hle
    simp only [advance, hp] at haccepted hfull ⊢
    refine ⟨hhead' ▸ hhead, htail'.le, fun _ => htail', by simp, haccepted, fun hlost hempty => ?_⟩
    exact hfull hlost (hempty' ▸ hempty)
  | flagSet =>
    simp only [advance, hp] at haccepted ⊢
    refine ⟨hhead, hle, fun _ => hlt (by simp [hp]), by simp, haccepted, fun _ hempty => ?_⟩
    cases hempty

section Force
variable (data : Option (List UInt8)) (handler : H)

private theorem force_fields (h : Tallied s lost) :
    (s.force data handler).params.head < schedulerMaxQueueSize ∧
      (s.force data handler).params.tail = s.params.tail ∧
      gap (s.force data handler).params = RingBuffer.next schedulerMaxQueueSize (gap s.params) := by
  simp only [force, enqueue_eq, gap]
  exact ⟨RingBuffer.next_lt h.head_lt, trivial, RingBuffer.gap_next_head h.head_lt h.tail_le⟩

private theorem force_isEmpty (h : Tallied s lost) :
    (s.force data handler).params.isEmpty = true ↔
      s.params.isEmpty = true ∧
        ¬ (gap s.params + 1 = schedulerMaxQueueSize ∧ s.params.tail < schedulerMaxQueueSize) := by
  have hlt := RingBuffer.next_lt h.head_lt
  have hmeet : RingBuffer.next schedulerMaxQueueSize s.params.head = s.params.tail ↔
      gap s.params + 1 = schedulerMaxQueueSize ∧ s.params.tail < schedulerMaxQueueSize := by
    rw [← RingBuffer.next_eq_zero_iff, gap, ← RingBuffer.gap_next_head h.head_lt h.tail_le]
    constructor
    · intro heq
      have htail := heq ▸ hlt
      exact ⟨(RingBuffer.gap_eq_zero_iff hlt htail).mpr heq, htail⟩
    · rintro ⟨hnone, htail⟩
      exact (RingBuffer.gap_eq_zero_iff hlt htail).mp hnone
  rw [← hmeet]
  simp [force, enqueue_eq]

private theorem force_pending (h : Tallied s lost) (htail : s.params.tail < schedulerMaxQueueSize) :
    (s.force data handler).params.pending = true := by
  have hempty := force_isEmpty data handler h
  obtain ⟨hhead', htail', hgap'⟩ := force_fields data handler h
  simp only [htail, and_true] at hempty
  rw [pending_iff hhead' (htail' ▸ htail), pendingCount_eq hhead' (htail' ▸ htail), hgap']
  simp only [hempty, RingBuffer.next_eq_zero_iff]
  unfold RingBuffer.next
  split_ifs <;> omega

private theorem force_shown (h : Tallied s lost) :
    (s.force data handler).shown +
        (if s.shown + handled s.point = schedulerMaxQueueSize then schedulerMaxQueueSize else 0) =
      s.shown + 1 := by
  have hempty := force_isEmpty data handler h
  obtain ⟨hhead', htail', hgap'⟩ := force_fields data handler h
  have hgap : gap s.params < schedulerMaxQueueSize := RingBuffer.gap_lt h.head_lt
  have hpoint : (s.force data handler).point = s.point := rfl
  cases hp : s.point with
  | loopTest | handlerCall =>
    have htail := h.tail_lt (by simp [hp])
    simp only [htail, and_true] at hempty
    simp only [shown, hpoint, hp, handled, pendingCount_eq h.head_lt htail,
      pendingCount_eq hhead' (htail' ▸ htail), hgap', hempty, RingBuffer.next_eq_zero_iff]
    unfold RingBuffer.next
    rw [max_eq] at hgap ⊢
    split_ifs <;> omega
  | tailIncrement =>
    have hnext : gap (s.force data handler).params.incrementTail =
        RingBuffer.next schedulerMaxQueueSize (gap s.params.incrementTail) := by
      simp only [force, enqueue_eq, gap]
      exact RingBuffer.gap_next_head h.head_lt (h.tail_lt (by simp [hp]))
    simp only [shown, hpoint, hp, handled, hnext, RingBuffer.next]
    split_ifs <;> omega
  | tailWrap | flagSet =>
    simp only [shown, hpoint, hp, handled, hgap', RingBuffer.next]
    split_ifs <;> omega

end Force

private theorem shown_le (h : Tallied s lost) :
    s.shown + handled s.point ≤ schedulerMaxQueueSize := by
  have hgap (tail : Nat) : RingBuffer.gap schedulerMaxQueueSize s.params.head tail <
      schedulerMaxQueueSize := RingBuffer.gap_lt h.head_lt
  cases hp : s.point with
  | loopTest | handlerCall =>
    have hcount : gap s.params < schedulerMaxQueueSize := hgap s.params.tail
    simp only [shown, hp, handled, pendingCount_eq h.head_lt (h.tail_lt (by simp [hp])),
      Nat.add_zero]
    split_ifs <;> omega
  | tailIncrement =>
    simp only [shown, hp, handled]
    exact hgap (s.params.tail + 1)
  | tailWrap | flagSet =>
    simp only [shown, hp, handled]
    exact hgap s.params.tail

/-- Fewer than fifty are unfinished when nothing is lost yet and a slot is free. -/
theorem Tallied.unfinished_lt_iff (h : Tallied s lost) :
    s.unfinished < schedulerMaxQueueSize ↔
      lost = 0 ∧ s.shown + handled s.point ≠ schedulerMaxQueueSize := by
  have hle := shown_le h
  rw [unfinished, h.outstanding_eq]
  rw [max_eq] at hle ⊢
  omega

private theorem Tallied.flag_up (h : Tallied s lost)
    (hroom : s.unfinished < schedulerMaxQueueSize) :
    s.params.isEmpty = true := by
  obtain ⟨hlost, hfree⟩ := h.unfinished_lt_iff.mp hroom
  by_contra hdown
  exact hfree (h.full_eq hlost (by simpa using hdown))

private theorem shown_of_meet (h : Tallied s lost)
    (hgap : gap s.params + 1 = schedulerMaxQueueSize) :
    s.shown + 1 + handled s.point = schedulerMaxQueueSize ∨
      s.shown + handled s.point = schedulerMaxQueueSize := by
  cases hp : s.point with
  | loopTest | handlerCall =>
    simp only [shown, hp, handled, pendingCount_eq h.head_lt (h.tail_lt (by simp [hp]))]
    rw [max_eq] at hgap ⊢
    split_ifs <;> omega
  | tailIncrement =>
    have hnext := next_gap_incrementTail h.head_lt (h.tail_lt (by simp [hp]))
    simp only [shown, hp, handled]
    rw [max_eq, RingBuffer.next] at hnext
    rw [max_eq] at hgap ⊢
    split_ifs at hnext <;> omega
  | tailWrap | flagSet =>
    simp only [shown, hp, handled]
    omega

/-- A forced put loses nothing exactly when it finds fewer than fifty unfinished. -/
theorem force_tallied (h : Tallied s lost) (data : Option (List UInt8)) (handler : H) :
    ∃ lost', Tallied (s.force data handler) lost' ∧
      (lost' = 0 ↔ s.unfinished < schedulerMaxQueueSize) := by
  have hle := shown_le h
  have hshown := force_shown data handler h
  obtain ⟨hhead', htail', _⟩ := force_fields data handler h
  refine ⟨if s.shown + handled s.point = schedulerMaxQueueSize then lost + 1 else lost,
    ⟨hhead', htail' ▸ h.tail_le, fun hne => htail' ▸ h.tail_lt hne, fun hcall => ?_, ?_,
      fun hlost hdown => ?_⟩, ?_⟩
  · refine force_pending data handler h (h.tail_lt ?_)
    obtain hp | hp : s.point = .handlerCall ∨ s.point = .tailIncrement := hcall
    all_goals simp [hp]
  · have haccepted := h.accepted_eq
    change (s.accepted ++ [_]).length = s.executed.length + _ + _
    rw [List.length_append, List.length_singleton]
    split_ifs at hshown ⊢
    · rw [Nat.mul_succ]
      omega
    · omega
  · -- the flag was up, so this put has met the tail
    have hfree : ¬ s.shown + handled s.point = schedulerMaxQueueSize := by
      rintro htaken
      simp [htaken] at hlost
    rw [if_neg hfree] at hlost hshown
    have hup : s.params.isEmpty = true := by
      by_contra hdown'
      exact hfree (h.full_eq hlost (by simpa using hdown'))
    have hmeet : gap s.params + 1 = schedulerMaxQueueSize := by
      by_contra hne
      have hup' := (force_isEmpty data handler h).mpr ⟨hup, fun hm => hne hm.1⟩
      rw [hdown] at hup'
      cases hup'
    have hlast := (shown_of_meet h hmeet).resolve_right hfree
    rwa [← hshown] at hlast
  · rw [h.unfinished_lt_iff]
    split_ifs with htaken <;> simp [htaken]

/-- The two ways to lose events, at the test of the flag and in the window, at once. -/
theorem Tallied.room_iff (h : Tallied s 0) :
    s.unfinished < schedulerMaxQueueSize ↔
      s.params.isEmpty = true ∧ (s.InWindow → s.outstanding + 1 < schedulerMaxQueueSize) := by
  refine ⟨fun hroom => ⟨h.flag_up hroom, ?_⟩, fun ⟨hup, hwindow⟩ => ?_⟩
  · rintro (hp | hp)
    all_goals
      rw [unfinished, hp, handled] at hroom
      exact hroom
  · have hgap : gap s.params < schedulerMaxQueueSize := RingBuffer.gap_lt h.head_lt
    cases hp : s.point with
    | loopTest | handlerCall =>
      rw [unfinished, h.outstanding_eq, hp]
      simp only [shown, hp, handled, pendingCount_eq h.head_lt (h.tail_lt (by simp [hp])), hup]
      rw [max_eq] at hgap ⊢
      split_ifs <;> omega
    | tailIncrement =>
      have htail := h.tail_lt (by simp [hp])
      have hcount := (pending_iff h.head_lt htail).mp (h.pending (.inr hp))
      rw [pendingCount_eq h.head_lt htail, hup, if_pos rfl] at hcount
      have hnext := next_gap_incrementTail h.head_lt htail
      rw [unfinished, h.outstanding_eq, hp]
      simp only [shown, hp, handled]
      rw [RingBuffer.next] at hnext
      split_ifs at hcount hnext <;> omega
    | tailWrap | flagSet =>
      rw [unfinished, hp, handled]
      exact hwindow (by simp [InWindow, hp])

/-- With room a put past its tests is the put itself, and it spares the window. -/
theorem force_eq_put (h : Tallied s lost) (data : Option (List UInt8)) (handler : H)
    (hsize : (data.getD []).length ≤ schedulerMaxDataBufferSize)
    (hroom : s.unfinished < schedulerMaxQueueSize) :
    s.force data handler = s.step (.put data handler) ∧ s.SparesWindow (.put data handler) := by
  obtain ⟨hlost, _⟩ := h.unfinished_lt_iff.mp hroom
  obtain ⟨hup, hwindow⟩ := (hlost ▸ h).room_iff.mp hroom
  exact ⟨(put_accepted data handler hsize hup).symm, fun hw _ _ => hwindow hw⟩

/-! Left alone, the loop comes to rest. -/

/-- The statements left until the loop finds nothing; a turn takes five. -/
def toRest (s : PreemptedExecute H) : Nat :=
  match s.point with
  | .loopTest => 5 * s.shown
  | .handlerCall => 5 * s.shown - 1
  | .tailIncrement => 5 * s.shown + 3
  | .tailWrap => 5 * s.shown + 2
  | .flagSet => 5 * s.shown + 1

def AtRest (s : PreemptedExecute H) : Prop := s.point = .loopTest ∧ s.params.pending = false

theorem AtRest.shown_eq (hr : s.AtRest) (h : Tallied s lost) : s.shown = 0 := by
  obtain ⟨hpoint, hpending⟩ := hr
  have hcount := pending_iff h.head_lt (h.tail_lt (by simp [hpoint]))
  simp only [shown, hpoint]
  by_contra hne
  rw [hcount.mpr (Nat.pos_of_ne_zero hne)] at hpending
  cases hpending

private theorem Tallied.atRest (h : Tallied s lost) (hdone : s.toRest = 0) : s.AtRest := by
  have hpoint : s.point = .loopTest := by
    cases hp : s.point <;> simp only [toRest, hp] at hdone
    case loopTest => rfl
    case handlerCall =>
      have hcount := (pending_iff h.head_lt (h.tail_lt (by simp [hp]))).mp (h.pending (.inl hp))
      simp only [shown, hp] at hdone
      omega
    all_goals omega
  refine ⟨hpoint, ?_⟩
  simp only [toRest, shown, hpoint] at hdone
  by_contra hpending
  rw [Bool.not_eq_false, pending_iff h.head_lt (h.tail_lt (by simp [hpoint]))] at hpending
  omega

private theorem advance_toRest (h : Tallied s lost) : s.advance.toRest = s.toRest - 1 := by
  have hshown := advance_shown h
  cases hp : s.point with
  | loopTest =>
    have hcount := pending_iff h.head_lt (h.tail_lt (by simp [hp]))
    by_cases hgo : s.params.pending = true
    · simp [toRest, advance, shown, hp, hgo]
    · have hnone : s.params.pendingCount = 0 := by
        by_contra hpos
        exact hgo (hcount.mpr (Nat.pos_of_ne_zero hpos))
      simp [toRest, advance, shown, hp, hgo, hnone]
  | handlerCall | tailIncrement | tailWrap | flagSet =>
    simp only [advance, toRest, hp] at hshown ⊢
    simp at hshown
    omega

/-- From any state of the tally that many statements bring the loop to rest. -/
theorem drained (h : Tallied s lost) {n : Nat} (hn : s.toRest ≤ n) : (advance^[n] s).AtRest := by
  induction n generalizing s with
  | zero => exact h.atRest (Nat.le_zero.mp hn)
  | succ n ih =>
    rw [Function.iterate_succ_apply]
    refine ih (advance_tallied h) ?_
    rw [advance_toRest h]
    omega

theorem Tallied.toRest_le (h : Tallied s lost) : s.toRest ≤ 5 * schedulerMaxQueueSize := by
  have hle := shown_le h
  cases hp : s.point <;> simp only [toRest, hp, handled] at hle ⊢ <;> omega

end ClosedLoopStepper.Scheduler.PreemptedExecute
