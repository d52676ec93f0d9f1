import ClosedLoopStepper.Scheduler.Session

/-! The execution loop one statement at a time, preempted by complete puts between
any two statements. Everything hinges on the window after the tail increment, where
the flag still waits to be set. -/
namespace ClosedLoopStepper.Scheduler
open Foundations Common
variable {H : Type}

inductive ExecutePoint
  | loopTest | handlerCall | tailIncrement | tailWrap | flagSet
  deriving DecidableEq, Repr

structure PreemptedExecute (H : Type) where
  params : SchedulerParams H
  point : ExecutePoint
  accepted : List (SchedulerEvent H)
  executed : List (SchedulerEvent H)

/-- Either an interrupt puts an event or the loop executes its next statement. -/
inductive ExecuteAction (H : Type)
  | put (data : Option (List UInt8)) (handler : H)
  | advance

namespace PreemptedExecute

def start (params : SchedulerParams H) : PreemptedExecute H :=
  ⟨(schedulerInit params).1, .loopTest, [], []⟩

/-- A loop that finds nothing pending returns; the main loop calls it again, so the
point stays at the test. -/
def advance (s : PreemptedExecute H) : PreemptedExecute H :=
  match s.point with
  | .loopTest => { s with point := if s.params.pending then .handlerCall else .loopTest }
  | .handlerCall =>
    { s with executed := s.executed ++ [s.params.event s.params.tail], point := .tailIncrement }
  | .tailIncrement => { s with params := s.params.incrementTail, point := .tailWrap }
  | .tailWrap => { s with params := s.params.wrapTail, point := .flagSet }
  | .flagSet => { s with params := s.params.setEmpty, point := .loopTest }

def step (s : PreemptedExecute H) : ExecuteAction H → PreemptedExecute H
  | .put data handler =>
    let (params, status) := putData s.params data handler
    { s with
      params
      accepted := if status = .success then s.accepted ++ [⟨handler, data.getD []⟩]
        else s.accepted }
  | .advance => s.advance

/-- The statements after the tail has moved and before the flag is set. -/
def InWindow (s : PreemptedExecute H) : Prop := s.point = .tailWrap ∨ s.point = .flagSet

instance (s : PreemptedExecute H) : Decidable s.InWindow :=
  inferInstanceAs (Decidable (_ ∨ _))

def outstanding (s : PreemptedExecute H) : Nat := s.accepted.length - s.executed.length

/-- The put does not take the last free slot inside the window. -/
def SparesWindow (s : PreemptedExecute H) : ExecuteAction H → Prop
  | .put data _ =>
    s.InWindow → (data.getD []).length ≤ schedulerMaxDataBufferSize → s.params.isEmpty = true →
      s.outstanding + 1 < schedulerMaxQueueSize
  | .advance => True

instance (s : PreemptedExecute H) : ∀ a, Decidable (s.SparesWindow a)
  | .put _ _ => inferInstanceAs (Decidable (_ → _ → _ → _))
  | .advance => inferInstanceAs (Decidable True)

/-- The waiting events lie between the tail, wrapped if it still has to be, and the
head, and leave a slot free. The flag plays no part. -/
structure Window (params : SchedulerParams H) (waiting : List (SchedulerEvent H)) : Prop where
  layout : RingBuffer.Layout schedulerMaxQueueSize params.event params.head
    params.wrapTail.tail waiting
  spare : waiting.length < schedulerMaxQueueSize

/-- Where the waiting events lie at each statement. The slot of the event being
handled is taken until the tail moves. -/
def Slots (s : PreemptedExecute H) (waiting : List (SchedulerEvent H)) : Prop :=
  match s.point with
  | .loopTest => Denotes s.params waiting
  | .handlerCall => Denotes s.params waiting ∧ waiting ≠ []
  | .tailIncrement => ∃ e, Denotes s.params (e :: waiting)
  | .tailWrap => Window s.params waiting
  | .flagSet => Window s.params waiting ∧ s.params.tail ≠ schedulerMaxQueueSize

structure Coherent (s : PreemptedExecute H) (waiting : List (SchedulerEvent H)) : Prop where
  slots : s.Slots waiting
  accepted_eq : s.accepted = s.executed ++ waiting

variable {s : PreemptedExecute H} {waiting : List (SchedulerEvent H)}

theorem Coherent.outstanding_eq (h : Coherent s waiting) : s.outstanding = waiting.length := by
  rw [outstanding, h.accepted_eq, List.length_append]
  omega

theorem start_coherent (params : SchedulerParams H) : Coherent (start params) [] where
  slots := Denotes.init params
  accepted_eq := rfl

private theorem wrapTail_tail (params : SchedulerParams H) :
    params.wrapTail.tail = if params.tail = schedulerMaxQueueSize then 0 else params.tail := by
  unfold SchedulerParams.wrapTail
  split_ifs <;> rfl

private theorem enqueue_wrapTail (params : SchedulerParams H) (pEventData : Option (Nat → UInt8))
    (eventDataSize : Nat) (handler : H) :
    (params.enqueue pEventData eventDataSize handler).wrapTail.tail = params.wrapTail.tail := by
  rw [wrapTail_tail, wrapTail_tail, enqueue_eq]

private theorem Window.enqueue {params : SchedulerParams H} (h : Window params waiting)
    (data : Option (List UInt8)) (handler : H)
    (hspare : waiting.length + 1 < schedulerMaxQueueSize) :
    Window (params.enqueue (data.map pointer) (data.getD []).length handler)
      (waiting ++ [⟨handler, data.getD []⟩]) where
  layout := by
    have hpush := enqueue_layout (data.map pointer) (data.getD []).length handler
      (by simp +contextual) h.layout h.spare
    rwa [pointedBytes_data, ← enqueue_wrapTail params (data.map pointer) (data.getD []).length
      handler] at hpush
  spare := by
    rw [List.length_append, List.length_singleton]
    exact hspare

private theorem Window.wrap {params : SchedulerParams H} (h : Window params waiting) :
    Window params.wrapTail waiting ∧ params.wrapTail.tail ≠ schedulerMaxQueueSize := by
  have htail : params.wrapTail.tail ≠ schedulerMaxQueueSize := by
    rw [wrapTail_tail]
    split_ifs with he
    · decide
    · exact he
  refine ⟨⟨?_, h.spare⟩, htail⟩
  rw [wrapTail_tail params.wrapTail, if_neg htail]
  have hlayout := h.layout
  unfold SchedulerParams.wrapTail at hlayout ⊢
  split_ifs at hlayout ⊢ <;> exact hlayout

private theorem Window.setEmpty {params : SchedulerParams H} (h : Window params waiting)
    (htail : params.tail ≠ schedulerMaxQueueSize) : Denotes params.setEmpty waiting where
  toLayout := by
    have hlayout := h.layout
    rw [wrapTail_tail, if_neg htail] at hlayout
    exact hlayout
  full_iff := by
    have hspare := h.spare
    simp only [SchedulerParams.setEmpty, Bool.not_true, Bool.false_eq_true, false_iff]
    omega

private theorem put_rejected (data : Option (List UInt8)) (handler : H)
    (h : ¬ ((data.getD []).length ≤ schedulerMaxDataBufferSize ∧ s.params.isEmpty = true)) :
    s.step (.put data handler) = s := by
  obtain ⟨hparams, hstatus⟩ := putData_rejected data handler h
  simp [step, hparams, hstatus]

theorem put_accepted (data : Option (List UInt8)) (handler : H)
    (hsize : (data.getD []).length ≤ schedulerMaxDataBufferSize) (hroom : s.params.isEmpty = true) :
    s.step (.put data handler) =
      { s with
        params := s.params.enqueue (data.map pointer) (data.getD []).length handler
        accepted := s.accepted ++ [⟨handler, data.getD []⟩] } := by
  simp [step, putData_accepted data handler hsize hroom]

private theorem enqueue_slots (h : s.Slots waiting) (data : Option (List UInt8)) (handler : H)
    (hroom : s.params.isEmpty = true)
    (hspare : s.InWindow → waiting.length + 1 < schedulerMaxQueueSize)
    (accepted : List (SchedulerEvent H)) :
    Slots { s with
      params := s.params.enqueue (data.map pointer) (data.getD []).length handler
      accepted } (waiting ++ [⟨handler, data.getD []⟩]) := by
  unfold Slots at h ⊢
  cases hp : s.point with
  | loopTest =>
    rw [hp] at h
    exact h.putData data handler hroom
  | handlerCall =>
    rw [hp] at h
    exact ⟨h.1.putData data handler hroom, by simp⟩
  | tailIncrement =>
    rw [hp] at h
    obtain ⟨e, hd⟩ := h
    exact ⟨e, hd.putData data handler hroom⟩
  | tailWrap =>
    rw [hp] at h
    exact h.enqueue data handler (hspare (.inl hp))
  | flagSet =>
    rw [hp] at h
    refine ⟨h.1.enqueue data handler (hspare (.inr hp)), ?_⟩
    rw [enqueue_eq]
    exact h.2

private theorem put_coherent (h : Coherent s waiting) (data : Option (List UInt8)) (handler : H)
    (hs : s.SparesWindow (.put data handler)) :
    ∃ waiting', Coherent (s.step (.put data handler)) waiting' := by
  by_cases hok : (data.getD []).length ≤ schedulerMaxDataBufferSize ∧ s.params.isEmpty = true
  · refine ⟨waiting ++ [⟨handler, data.getD []⟩], ?_⟩
    rw [put_accepted data handler hok.1 hok.2]
    refine ⟨enqueue_slots h.slots data handler hok.2 (fun hw => ?_) _, ?_⟩
    · rw [← h.outstanding_eq]
      exact hs hw hok.1 hok.2
    · rw [h.accepted_eq, List.append_assoc]
  · rw [put_rejected data handler hok]
    exact ⟨waiting, h⟩

private theorem advance_coherent (h : Coherent s waiting) :
    ∃ waiting', Coherent s.advance waiting' := by
  have hslots := h.slots
  unfold Slots at hslots
  cases hp : s.point with
  | loopTest =>
    rw [hp] at hslots
    refine ⟨waiting, ?_, by simpa [advance, hp] using h.accepted_eq⟩
    by_cases hpending : s.params.pending = true
    · have hne := hslots.pending_iff.mp hpending
      simp only [advance, hp, hpending, if_true, Slots]
      exact ⟨hslots, hne⟩
    · simp only [advance, hp, hpending, Slots]
      exact hslots
  | handlerCall =>
    rw [hp] at hslots
    obtain ⟨hd, hne⟩ := hslots
    obtain ⟨e, rest, rfl⟩ := List.exists_cons_of_ne_nil hne
    refine ⟨rest, ?_, ?_⟩
    · simp only [advance, hp, Slots]
      exact ⟨e, hd⟩
    · simp [advance, hp, h.accepted_eq, hd.tail_slot]
  | tailIncrement =>
    rw [hp] at hslots
    obtain ⟨e, hd⟩ := hslots
    refine ⟨waiting, ?_, by simpa [advance, hp] using h.accepted_eq⟩
    simp only [advance, hp, Slots]
    have hpop := hd.pop
    refine ⟨?_, hpop.room⟩
    rw [wrapTail_incrementTail]
    exact hpop.toLayout
  | tailWrap =>
    rw [hp] at hslots
    refine ⟨waiting, ?_, by simpa [advance, hp] using h.accepted_eq⟩
    simp only [advance, hp, Slots]
    exact hslots.wrap
  | flagSet =>
    rw [hp] at hslots
    refine ⟨waiting, ?_, by simpa [advance, hp] using h.accepted_eq⟩
    simp only [advance, hp, Slots]
    exact hslots.1.setEmpty hslots.2

theorem step_coherent (h : ∃ waiting, Coherent s waiting) {a : ExecuteAction H}
    (hs : s.SparesWindow a) : ∃ waiting, Coherent (s.step a) waiting := by
  obtain ⟨waiting, h⟩ := h
  cases a with
  | put data handler => exact put_coherent h data handler hs
  | advance => exact advance_coherent h

theorem run_coherent {s : PreemptedExecute H} {actions : List (ExecuteAction H)}
    (h : ∃ waiting, Coherent s waiting) (hm : Machine.Meets step SparesWindow s actions) :
    ∃ waiting, Coherent (Machine.run step s actions) waiting :=
  hm.invariant (P := fun s => ∃ waiting, Coherent s waiting) h fun _ _ h hs => step_coherent h hs

/-! Progress: a bounded number of statements reaches every accepted event. -/

def advances : List (ExecuteAction H) → Nat
  | [] => 0
  | .put _ _ :: rest => advances rest
  | .advance :: rest => advances rest + 1

def callDistance : ExecutePoint → Nat
  | .handlerCall => 1
  | .loopTest => 2
  | .flagSet => 3
  | .tailWrap => 4
  | .tailIncrement => 5

/-- Statements until target events have been executed; a turn of the loop takes five. -/
def distance (s : PreemptedExecute H) (target : Nat) : Nat :=
  if target ≤ s.executed.length then 0
  else 5 * (target - s.executed.length - 1) + callDistance s.point

private theorem put_distance (data : Option (List UInt8)) (handler : H) (target : Nat) :
    (s.step (.put data handler)).distance target = s.distance target := rfl

private theorem accepted_mono (a : ExecuteAction H) : s.accepted <+: (s.step a).accepted := by
  cases a with
  | put data handler =>
    simp only [step]
    split_ifs
    · exact List.prefix_append _ _
    · exact List.prefix_refl _
  | advance =>
    simp only [step, advance]
    split <;> exact List.prefix_refl _

private theorem run_accepted_mono (s : PreemptedExecute H) (actions : List (ExecuteAction H)) :
    s.accepted <+: (Machine.run step s actions).accepted :=
  Machine.run_invariant (P := fun t : PreemptedExecute H => s.accepted <+: t.accepted) actions
    (List.prefix_refl _) fun _ a h => h.trans (accepted_mono a)

private theorem advance_distance (h : Coherent s waiting) {target : Nat}
    (ht : target ≤ s.accepted.length) :
    s.advance.distance target ≤ s.distance target - 1 := by
  by_cases hdone : target ≤ s.executed.length
  · have hmono : s.executed.length ≤ s.advance.executed.length := by
      unfold advance
      split <;> simp
    rw [distance, if_pos (Nat.le_trans hdone hmono)]
    exact Nat.zero_le _
  · have hlen : s.accepted.length = s.executed.length + waiting.length := by
      rw [h.accepted_eq, List.length_append]
    have hne : waiting ≠ [] := by
      rintro rfl
      rw [List.length_nil] at hlen
      omega
    have hslots := h.slots
    unfold Slots at hslots
    cases hp : s.point with
    | loopTest =>
      rw [hp] at hslots
      simp [advance, hp, distance, hslots.pending_iff.mpr hne, hdone, callDistance]
    | handlerCall =>
      simp only [advance, hp, distance, callDistance, List.length_append, List.length_singleton]
      split_ifs <;> omega
    | tailIncrement => simp [advance, hp, distance, hdone, callDistance]
    | tailWrap => simp [advance, hp, distance, hdone, callDistance]
    | flagSet => simp [advance, hp, distance, hdone, callDistance]

private theorem run_reaches {actions : List (ExecuteAction H)} {target : Nat}
    (h : ∃ waiting, Coherent s waiting) (ht : target ≤ s.accepted.length)
    (hm : Machine.Meets step SparesWindow s actions)
    (hd : s.distance target ≤ advances actions) :
    target ≤ (Machine.run step s actions).executed.length := by
  induction actions generalizing s with
  | nil =>
    by_contra hlt
    have hpos : 0 < callDistance s.point := by cases s.point <;> decide
    rw [Machine.run_nil] at hlt
    rw [distance, if_neg hlt, advances] at hd
    omega
  | cons a rest ih =>
    have hnext := step_coherent h hm.1
    have hmono := Nat.le_trans ht (accepted_mono (s := s) a).length_le
    refine ih hnext hmono hm.2 ?_
    cases a with
    | put data handler =>
      rw [put_distance]
      exact hd
    | advance =>
      obtain ⟨waiting, h⟩ := h
      have := advance_distance h ht
      rw [advances] at hd
      change s.advance.distance target ≤ _
      omega

/-- The events a loop has executed are, in order, the first ones accepted; after five
statements for each event still outstanding, every one accepted by then has been
executed, whatever is put in between. Both hold in every run in which no put takes
the last slot between the tail increment and the setting of the flag. -/
theorem execute_loses_no_event (params : SchedulerParams H) (before after : List (ExecuteAction H))
    (hm : Machine.Meets step SparesWindow (start params) (before ++ after)) :
    let s := Machine.run step (start params) before
    let t := Machine.run step s after
    s.executed <+: s.accepted ∧
    (5 * s.outstanding ≤ advances after → s.accepted <+: t.executed) := by
  intro s t
  rw [Machine.meets_append] at hm
  have hs := run_coherent ⟨[], start_coherent params⟩ hm.1
  have ht : ∃ waiting, Coherent t waiting := run_coherent hs hm.2
  have hexecuted : ∀ u : PreemptedExecute H, (∃ waiting, Coherent u waiting) →
      u.executed <+: u.accepted := by
    rintro u ⟨waiting, hu⟩
    rw [hu.accepted_eq]
    exact List.prefix_append _ _
  refine ⟨hexecuted s hs, fun hadv => ?_⟩
  have hdist : s.distance s.accepted.length ≤ advances after := by
    have hcall : callDistance s.point ≤ 5 := by cases s.point <;> decide
    unfold distance
    unfold outstanding at hadv
    split_ifs <;> omega
  have hreach := run_reaches hs (Nat.le_refl _) hm.2 hdist
  exact List.prefix_of_prefix_length_le (run_accepted_mono s after) (hexecuted t ht) hreach

/-- The hypothesis can be met: a put in the window with slots to spare. -/
theorem execute_loses_no_event_in_window :
    let before : List (ExecuteAction Unit) := .put none () :: List.replicate 3 .advance ++
      [.put (some [7]) ()]
    let s := Machine.run step (start (.zeroed ())) before
    s.InWindow ∧ s.outstanding = 1 ∧
      s.accepted <+: (Machine.run step s (List.replicate 5 .advance)).executed :=
  ⟨by decide, by decide, (execute_loses_no_event (.zeroed ()) _ (List.replicate 5 .advance)
    (by decide)).2 (by decide)⟩

/-- A loop that has returned stays where it is until something is put. -/
theorem idle_stays (hp : s.point = .loopTest) (h : s.params.pending = false) (n : Nat) :
    Machine.run step s (List.replicate n .advance) = s := by
  have hfix : s.step .advance = s := by
    obtain ⟨params, point, accepted, executed⟩ := s
    cases hp
    simp only at h
    simp [step, advance, h]
  exact Machine.run_fixed hfix n

private theorem cursors_meet {params : SchedulerParams H} (h : Window params waiting)
    (data : Option (List UInt8)) (handler : H) (hfill : waiting.length + 1 = schedulerMaxQueueSize) :
    (params.enqueue (data.map pointer) (data.getD []).length handler).wrapTail.setEmpty.pending =
      false := by
  have hpush := enqueue_layout (data.map pointer) (data.getD []).length handler
    (by simp +contextual) h.layout h.spare
  have hmeet := hpush.head_eq_tail_iff.mpr (.inr (by simpa using hfill))
  rw [← enqueue_wrapTail params (data.map pointer) (data.getD []).length handler] at hmeet
  have hhead : ∀ p : SchedulerParams H, p.wrapTail.head = p.head := by
    intro p
    unfold SchedulerParams.wrapTail
    split_ifs <;> rfl
  simp [SchedulerParams.pending, SchedulerParams.setEmpty, hhead, hmeet]

/-- The condition leaves out only losing puts: one that takes the last slot in the
window makes the loop stop with all fifty events outstanding. -/
theorem filled_window_loses_all (h : Coherent s waiting) (data : Option (List UInt8)) (handler : H)
    (hw : s.InWindow) (hsize : (data.getD []).length ≤ schedulerMaxDataBufferSize)
    (hroom : s.params.isEmpty = true) (hfill : waiting.length + 1 = schedulerMaxQueueSize) :
    ∃ n, let t := Machine.run step (s.step (.put data handler)) (List.replicate n .advance)
      t.point = .loopTest ∧ t.params.pending = false ∧ t.outstanding = schedulerMaxQueueSize := by
  have hout : s.accepted.length + 1 - s.executed.length = schedulerMaxQueueSize := by
    rw [h.accepted_eq, List.length_append]
    omega
  have hslots := h.slots
  unfold Slots at hslots
  rcases hw with hp | hp
  · rw [hp] at hslots
    refine ⟨2, ?_⟩
    rw [put_accepted data handler hsize hroom]
    simp only [List.replicate, Machine.run_cons, Machine.run_nil, step, advance, hp, outstanding,
      List.length_append, List.length_singleton]
    exact ⟨trivial, cursors_meet hslots data handler hfill, hout⟩
  · rw [hp] at hslots
    refine ⟨1, ?_⟩
    rw [put_accepted data handler hsize hroom]
    simp only [List.replicate, Machine.run_cons, Machine.run_nil, step, advance, hp, outstanding,
      List.length_append, List.length_singleton]
    refine ⟨trivial, ?_, hout⟩
    -- the tail was wrapped before the put, so wrapping again is idle
    have hmeet := cursors_meet hslots.1 data handler hfill
    rwa [SchedulerParams.wrapTail, if_neg (by rw [enqueue_eq]; exact hslots.2)] at hmeet

/-- Forty-nine events wait and one of them is being handled when two more arrive
in the window. -/
def fillWindow : List (ExecuteAction Unit) :=
  List.replicate 49 (.put none ()) ++ List.replicate 3 .advance ++
    List.replicate 2 (.put none ()) ++ List.replicate 2 .advance

/-- Two events put between the tail increment and the setting of the flag: the loop
returns after the first event and the other fifty accepted ones are never executed. -/
theorem window_puts_lost :
    let s := Machine.run step (start (.zeroed ())) fillWindow
    s.accepted.length = 51 ∧ s.executed.length = 1 ∧
      ∀ n, (Machine.run step s (List.replicate n .advance)).executed.length = 1 := by
  have hpoint : (Machine.run step (start (.zeroed ())) fillWindow).point = .loopTest := by
    decide +kernel
  have hpending : (Machine.run step (start (.zeroed ())) fillWindow).params.pending = false := by
    decide +kernel
  have hexecuted : (Machine.run step (start (.zeroed ())) fillWindow).executed.length = 1 := by
    decide +kernel
  refine ⟨by decide +kernel, hexecuted, fun n => ?_⟩
  rw [idle_stays hpoint hpending n]
  exact hexecuted

end PreemptedExecute
end ClosedLoopStepper.Scheduler
