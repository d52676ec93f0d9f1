import ClosedLoopStepper.Scheduler.Overruns
import ClosedLoopStepper.Scheduler.PreemptedPut

/-! The whole scheduler one statement at a time: the loop and, between any two of its
statements, puts by handlers and interrupts that preempt the loop and one another wherever
interrupts are enabled. -/
namespace ClosedLoopStepper.Scheduler
open Foundations Common
variable {H : Type}

/-- The innermost put comes first; the loop goes on when none is under way. -/
structure PreemptedScheduler (H : Type) where
  loop : PreemptedExecute H
  interrupts : Interrupts
  frames : List (PutFrame H)

/-- `call` enters a put, from an interrupt or from the handler that the loop has called;
`advance` executes the next statement of the innermost put, `execute` one of the loop. -/
inductive SchedulerAction (H : Type)
  | call (data : Option (List UInt8)) (handler : H)
  | advance
  | execute

namespace PreemptedScheduler

def start (params : SchedulerParams H) : PreemptedScheduler H :=
  ⟨PreemptedExecute.start params, .initial, []⟩

def puts (s : PreemptedScheduler H) : PreemptedPut H :=
  ⟨s.loop.params, s.interrupts, s.frames, none, s.loop.accepted, s.loop.executed.length⟩

def withPuts (s : PreemptedScheduler H) (puts : PreemptedPut H) : PreemptedScheduler H :=
  { loop := { s.loop with params := puts.params, accepted := puts.accepted }
    interrupts := puts.interrupts
    frames := puts.frames }

def step (s : PreemptedScheduler H) : SchedulerAction H → PreemptedScheduler H
  | .call data handler => s.withPuts (s.puts.step (.call data handler))
  | .advance => s.withPuts (s.puts.step .advance)
  | .execute => if s.frames.isEmpty then { s with loop := s.loop.advance } else s

/-- A put that is about to mask the interrupts finds fewer than fifty events unfinished. -/
def FindsRoom (s : PreemptedScheduler H) : SchedulerAction H → Prop
  | .advance => s.puts.entering = true → s.loop.unfinished < schedulerMaxQueueSize
  | .call _ _ | .execute => True

instance (s : PreemptedScheduler H) : ∀ a, Decidable (s.FindsRoom a)
  | .advance => inferInstanceAs (Decidable (_ → _))
  | .call _ _ | .execute => inferInstanceAs (Decidable True)

def finish (f : PutFrame H) (params : SchedulerParams H) : SchedulerParams H :=
  let size := (f.data.getD []).length
  match f.point with
  | .saveStatus | .copyData => params.enqueue (f.data.map pointer) size f.handler
  | .storeHandler =>
    ((((params.storeEventHandler f.handler).storeDataLength size).incrementHead).wrapHead).markFull
  | .storeLength => (((params.storeDataLength size).incrementHead).wrapHead).markFull
  | .headIncrement => ((params.incrementHead).wrapHead).markFull
  | .headWrap => params.wrapHead.markFull
  | .fullTest => params.markFull
  | .sizeTest | .flagTest | .readPrimask | .setPrimask | .restoreStatus | .returned => params

/-- The event of a put that is in its critical section and still to be recorded. -/
def entered (f : PutFrame H) : List (SchedulerEvent H) :=
  match f.point with
  | .saveStatus | .copyData | .storeHandler | .storeLength | .headIncrement | .headWrap
  | .fullTest => [f.event]
  | .sizeTest | .flagTest | .readPrimask | .setPrimask | .restoreStatus | .returned => []

/-- The loop as the innermost put leaves it when its critical section is over. -/
def settled (s : PreemptedScheduler H) : PreemptedExecute H :=
  match s.frames with
  | [] => s.loop
  | f :: _ =>
    { s.loop with
      params := finish f s.loop.params
      accepted := s.loop.accepted ++ entered f }

def Masking (s : PreemptedScheduler H) (f : PutFrame H) : Prop :=
  match f.point with
  | .saveStatus => f.status = false
  | .copyData | .storeHandler | .storeLength | .headIncrement | .headWrap | .fullTest
  | .restoreStatus => s.interrupts.systemUtilsSaveInterruptStatus = false
  | .sizeTest | .flagTest | .readPrimask | .setPrimask | .returned => False

def Stacked (s : PreemptedScheduler H) : Prop :=
  match s.frames with
  | [] => s.interrupts.primask = false
  | f :: rest =>
    (s.interrupts.primask = false ∧ PreemptedPut.Suspended f ∨
      s.interrupts.primask = true ∧ s.Masking f) ∧ ∀ g ∈ rest, PreemptedPut.Suspended g

def Sized (f : PutFrame H) : Prop :=
  f.point ≠ .sizeTest → f.point ≠ .returned →
    (f.data.getD []).length ≤ schedulerMaxDataBufferSize

structure Ordered (s : PreemptedScheduler H) : Prop where
  stacked : s.Stacked
  sized : ∀ f ∈ s.frames, Sized f

variable {s : PreemptedScheduler H} {f : PutFrame H} {rest : List (PutFrame H)}

private theorem start_ordered (params : SchedulerParams H) : Ordered (start params) where
  stacked := rfl
  sized := nofun

theorem Stacked.at_rest (h : s.Stacked) (hi : s.interrupts.primask = false) :
    ∀ g ∈ s.frames, PreemptedPut.Suspended g := by
  unfold Stacked at h
  split at h
  · rename_i hframes
    simp [hframes]
  · rename_i f rest hframes
    obtain ⟨⟨_, hf⟩ | ⟨hmasked, _⟩, hrest⟩ := h
    · simpa [hframes] using ⟨hf, hrest⟩
    · rw [hmasked] at hi
      cases hi

private theorem suspended_finish (hf : PreemptedPut.Suspended f) (params : SchedulerParams H) :
    finish f params = params ∧ entered f = [] := by
  unfold PreemptedPut.Suspended at hf
  unfold finish entered
  cases hp : f.point <;> rw [hp] at hf <;> first | exact hf.elim | exact ⟨rfl, rfl⟩

private theorem settled_eq (h : ∀ g ∈ s.frames, PreemptedPut.Suspended g) : s.settled = s.loop := by
  unfold settled
  split
  · rfl
  · rename_i f rest hframes
    obtain ⟨hfinish, hentered⟩ := suspended_finish (h f (by simp [hframes])) s.loop.params
    rw [hfinish, hentered, List.append_nil]

/-- What a step is to the loop as it will be settled: nothing, one of its statements or a
whole put, which has only to find room. -/
inductive Settles (s : PreemptedScheduler H) (a : SchedulerAction H) : Prop
  | idle (heq : (s.step a).settled = s.settled) (hroom : s.FindsRoom a)
  | statement (heq : (s.step a).settled = s.settled.advance) (hroom : s.FindsRoom a)
  | put (data : Option (List UInt8)) (handler : H)
    (hsize : (data.getD []).length ≤ schedulerMaxDataBufferSize)
    (heq : (s.step a).settled = s.settled.force data handler)
    (hroom : s.FindsRoom a ↔ s.settled.unfinished < schedulerMaxQueueSize)

private theorem open_settles (h : Ordered s) (hi : s.interrupts.primask = false)
    {a : SchedulerAction H} {frames : List (PutFrame H)} (hstep : s.step a = { s with frames })
    (hsuspended : ∀ g ∈ frames, PreemptedPut.Suspended g) (hsized : ∀ g ∈ frames, Sized g)
    (hroom : s.FindsRoom a) : Ordered (s.step a) ∧ Settles s a := by
  refine ⟨⟨?_, by rwa [hstep]⟩, .idle ?_ hroom⟩
  · rw [hstep]
    unfold Stacked
    split
    · exact hi
    · rename_i f rest hframes
      change frames = f :: rest at hframes
      rw [hframes, List.forall_mem_cons] at hsuspended
      exact ⟨.inl ⟨hi, hsuspended.1⟩, hsuspended.2⟩
  · rw [settled_eq (h.stacked.at_rest hi), settled_eq (by rwa [hstep]), hstep]

private theorem call_settles (h : Ordered s) (data : Option (List UInt8)) (handler : H) :
    Ordered (s.step (.call data handler)) ∧ Settles s (.call data handler) := by
  cases hi : s.interrupts.primask
  · have hstep : s.step (.call data handler) =
        { s with frames := ⟨data, handler, .sizeTest, false⟩ :: s.frames } := by
      simp [step, PreemptedPut.step, puts, withPuts, hi]
    refine open_settles h hi hstep ?_ ?_ trivial
    · exact List.forall_mem_cons.mpr ⟨trivial, h.stacked.at_rest hi⟩
    · exact List.forall_mem_cons.mpr ⟨fun hp => absurd rfl hp, h.sized⟩
  · have hstep : s.step (.call data handler) = s := by
      simp [step, PreemptedPut.step, puts, withPuts, hi]
    exact ⟨by rwa [hstep], .idle (by rw [hstep]) trivial⟩

private theorem execute_settles (h : Ordered s) :
    Ordered (s.step .execute) ∧ Settles s .execute := by
  by_cases hframes : s.frames = []
  · have hstep : s.step .execute = { s with loop := s.loop.advance } := by
      simp [step, hframes]
    have hstacked := h.stacked
    unfold Stacked at hstacked
    rw [hframes] at hstacked
    refine ⟨⟨?_, ?_⟩, .statement ?_ trivial⟩
    · simpa only [hstep, Stacked, hframes] using hstacked
    · simp [hstep, hframes]
    · simp [hstep, settled, hframes]
  · have hstep : s.step .execute = s := by simp [step, hframes]
    exact ⟨by rwa [hstep], .idle (by rw [hstep]) trivial⟩

private theorem step_advance (hframes : s.frames = f :: rest) :
    s.step .advance = s.withPuts (s.puts.advance f rest) := by
  have hputs : s.puts.frames = f :: rest := hframes
  rw [step, PreemptedPut.step, hputs]

private theorem findsRoom_advance (hframes : s.frames = f :: rest) (hp : f.point ≠ .setPrimask) :
    s.FindsRoom .advance := by
  have hputs : s.puts.frames = f :: rest := hframes
  intro hentering
  rw [PreemptedPut.entering, hputs] at hentering
  exact absurd (by simpa using hentering) hp

private theorem moves_settles (h : Ordered s) (hframes : s.frames = f :: rest)
    (hi : s.interrupts.primask = false) (f' : PutFrame H) (hf : PreemptedPut.Suspended f')
    (hsize : Sized f') (hstep : s.step .advance = { s with frames := f' :: rest })
    (hp : f.point ≠ .setPrimask) : Ordered (s.step .advance) ∧ Settles s .advance := by
  have hsuspended := h.stacked.at_rest hi
  have hsized := h.sized
  rw [hframes, List.forall_mem_cons] at hsuspended hsized
  exact open_settles h hi hstep (List.forall_mem_cons.mpr ⟨hf, hsuspended.2⟩)
    (List.forall_mem_cons.mpr ⟨hsize, hsized.2⟩) (findsRoom_advance hframes hp)

private theorem suspended_settles (h : Ordered s) (hframes : s.frames = f :: rest)
    (hi : s.interrupts.primask = false) : Ordered (s.step .advance) ∧ Settles s .advance := by
  have hsuspended := h.stacked.at_rest hi
  have hsized := h.sized
  rw [hframes, List.forall_mem_cons] at hsuspended hsized
  obtain ⟨hf, hrest⟩ := hsuspended
  obtain ⟨hsize, hsizes⟩ := hsized
  have hstep := step_advance hframes
  cases hp : f.point <;> simp only [PreemptedPut.Suspended, hp] at hf
  case sizeTest =>
    by_cases hfits : (f.data.getD []).length ≤ schedulerMaxDataBufferSize
    · refine moves_settles h hframes hi { f with point := .flagTest } trivial (fun _ _ => hfits)
        ?_ (by simp [hp])
      simp [hstep, PreemptedPut.advance, hp, hfits, withPuts, puts]
    · refine moves_settles h hframes hi { f with point := .returned } trivial
        (fun _ hne => absurd rfl hne) ?_ (by simp [hp])
      simp [hstep, PreemptedPut.advance, hp, hfits, withPuts, puts]
  case flagTest =>
    have hfits := hsize (by simp [hp]) (by simp [hp])
    by_cases hempty : s.loop.params.isEmpty = true
    · refine moves_settles h hframes hi { f with point := .readPrimask } trivial (fun _ _ => hfits)
        ?_ (by simp [hp])
      simp [hstep, PreemptedPut.advance, hp, hempty, withPuts, puts]
    · refine moves_settles h hframes hi { f with point := .returned } trivial
        (fun _ hne => absurd rfl hne) ?_ (by simp [hp])
      simp [hstep, PreemptedPut.advance, hp, hempty, withPuts, puts]
  case readPrimask =>
    have hfits := hsize (by simp [hp]) (by simp [hp])
    refine moves_settles h hframes hi { f with point := .setPrimask, status := false } rfl
      (fun _ _ => hfits) ?_ (by simp [hp])
    simp [hstep, PreemptedPut.advance, hp, Interrupts.readStatus, hi, withPuts, puts]
  case setPrimask =>
    have hfits := hsize (by simp [hp]) (by simp [hp])
    have hsettled := settled_eq (h.stacked.at_rest hi)
    have hmasked : s.step .advance =
        { s with
          interrupts := s.interrupts.disable
          frames := { f with point := .saveStatus } :: rest } := by
      simp [hstep, PreemptedPut.advance, hp, withPuts, puts]
    refine ⟨⟨?_, ?_⟩, .put f.data f.handler hfits ?_ ?_⟩
    · rw [hmasked]
      exact ⟨.inr ⟨rfl, hf⟩, hrest⟩
    · rw [hmasked]
      exact List.forall_mem_cons.mpr ⟨fun _ _ => hfits, hsizes⟩
    · rw [hmasked, hsettled]
      rfl
    · have hentering : s.puts.entering = true := by
        have hputs : s.puts.frames = f :: rest := hframes
        simp [PreemptedPut.entering, hputs, hp]
      rw [hsettled, FindsRoom]
      exact ⟨fun hroom => hroom hentering, fun hroom _ => hroom⟩
  case returned =>
    refine open_settles h hi ?_ hrest hsizes (findsRoom_advance hframes (by simp [hp]))
    simp [hstep, PreemptedPut.advance, hp, withPuts, puts]

private theorem masked_settles (h : Ordered s) (hframes : s.frames = f :: rest)
    (hi : s.interrupts.primask = true) (hf : s.Masking f)
    (hrest : ∀ g ∈ rest, PreemptedPut.Suspended g) :
    Ordered (s.step .advance) ∧ Settles s .advance := by
  have hsized := h.sized
  rw [hframes, List.forall_mem_cons] at hsized
  obtain ⟨hsize, hsizes⟩ := hsized
  have hstep := step_advance hframes
  cases hp : f.point <;> simp only [Masking, hp] at hf
  case saveStatus | copyData | storeHandler | storeLength | headIncrement | headWrap =>
    refine ⟨⟨?_, ?_⟩, .idle ?_ (findsRoom_advance hframes (by simp [hp]))⟩
    all_goals simp only [hstep, PreemptedPut.advance, hp]
    · exact ⟨.inr ⟨hi, hf⟩, hrest⟩
    · exact List.forall_mem_cons.mpr ⟨fun _ _ => hsize (by simp [hp]) (by simp [hp]), hsizes⟩
    · simp only [settled, hframes, finish, entered, hp]
      rfl
  case fullTest =>
    refine ⟨⟨?_, ?_⟩, .idle ?_ (findsRoom_advance hframes (by simp [hp]))⟩
    all_goals simp only [hstep, PreemptedPut.advance, hp]
    · exact ⟨.inr ⟨hi, hf⟩, hrest⟩
    · exact List.forall_mem_cons.mpr ⟨fun _ _ => hsize (by simp [hp]) (by simp [hp]), hsizes⟩
    · simp [settled, hframes, finish, entered, hp, withPuts, puts]
  case restoreStatus =>
    refine ⟨⟨?_, ?_⟩, .idle ?_ (findsRoom_advance hframes (by simp [hp]))⟩
    all_goals simp only [hstep, PreemptedPut.advance, hp]
    · exact ⟨.inl ⟨hf, trivial⟩, hrest⟩
    · exact List.forall_mem_cons.mpr ⟨fun _ hne => absurd rfl hne, hsizes⟩
    · simp [settled, hframes, finish, entered, hp, withPuts, puts]

private theorem advance_settles (h : Ordered s) :
    Ordered (s.step .advance) ∧ Settles s .advance := by
  have hstacked := h.stacked
  unfold Stacked at hstacked
  cases hframes : s.frames with
  | nil =>
    have hputs : s.puts.frames = [] := hframes
    have hstep : s.step .advance = s := by
      rw [step, PreemptedPut.step, hputs]
      rfl
    refine ⟨by rwa [hstep], .idle (by rw [hstep]) fun hentering => ?_⟩
    rw [PreemptedPut.entering, hputs] at hentering
    cases hentering
  | cons f rest =>
    rw [hframes] at hstacked
    obtain ⟨⟨hi, _⟩ | ⟨hi, hf⟩, hrest⟩ := hstacked
    · exact suspended_settles h hframes hi
    · exact masked_settles h hframes hi hf hrest

/-- Every step keeps the order of the puts and settles in one of the three ways. -/
theorem step_settles (h : Ordered s) (a : SchedulerAction H) :
    Ordered (s.step a) ∧ Settles s a := by
  cases a with
  | call data handler => exact call_settles h data handler
  | advance => exact advance_settles h
  | execute => exact execute_settles h

structure Whole (params : SchedulerParams H) (s : PreemptedScheduler H) : Prop where
  ordered : Ordered s
  tallied : PreemptedExecute.Tallied s.settled 0
  reached : ∃ whole,
    Machine.Meets PreemptedExecute.step PreemptedExecute.SparesWindow
      (PreemptedExecute.start params) whole ∧
    s.settled = Machine.run PreemptedExecute.step (PreemptedExecute.start params) whole

structure Short (s : PreemptedScheduler H) : Prop where
  ordered : Ordered s
  tallied : ∃ lost, 0 < lost ∧ PreemptedExecute.Tallied s.settled lost

variable {params : SchedulerParams H}

private theorem start_whole (params : SchedulerParams H) : Whole params (start params) where
  ordered := start_ordered params
  tallied := PreemptedExecute.start_tallied params
  reached := ⟨[], trivial, rfl⟩

private theorem Whole.coherent (h : Whole params s) :
    ∃ waiting, PreemptedExecute.Coherent s.settled waiting := by
  obtain ⟨whole, hm, hrun⟩ := h.reached
  rw [hrun]
  exact PreemptedExecute.run_coherent ⟨[], PreemptedExecute.start_coherent params⟩ hm

private theorem Whole.step (h : Whole params s) {a : SchedulerAction H} (hroom : s.FindsRoom a) :
    Whole params (s.step a) := by
  obtain ⟨hordered, hsettles⟩ := step_settles h.ordered a
  obtain ⟨whole, hm, hrun⟩ := h.reached
  have hmore (i : ExecuteAction H) (hi : s.settled.SparesWindow i) :
      Machine.Meets PreemptedExecute.step PreemptedExecute.SparesWindow
        (PreemptedExecute.start params) (whole ++ [i]) := by
    rw [Machine.meets_append, ← hrun]
    exact ⟨hm, hi, trivial⟩
  cases hsettles with
  | idle heq _ => exact ⟨hordered, heq ▸ h.tallied, whole, hm, heq ▸ hrun⟩
  | statement heq _ =>
    refine ⟨hordered, heq ▸ PreemptedExecute.advance_tallied h.tallied, whole ++ [.advance],
      hmore .advance trivial, ?_⟩
    rw [heq, Machine.run_append, ← hrun]
    rfl
  | put data handler hsize heq hfinds =>
    have hunfinished := hfinds.mp hroom
    obtain ⟨hput, hspares⟩ := PreemptedExecute.force_eq_put h.tallied data handler hsize hunfinished
    obtain ⟨lost, htallied, hlost⟩ := PreemptedExecute.force_tallied h.tallied data handler
    obtain rfl := hlost.mpr hunfinished
    refine ⟨hordered, heq ▸ htallied, whole ++ [.put data handler], hmore _ hspares, ?_⟩
    rw [heq, hput, Machine.run_append, ← hrun]
    rfl

/-- A put without room costs fifty events. -/
private theorem Whole.spoil (h : Whole params s) {a : SchedulerAction H}
    (hroom : ¬ s.FindsRoom a) : Short (s.step a) := by
  obtain ⟨hordered, hsettles⟩ := step_settles h.ordered a
  cases hsettles with
  | idle _ hfinds | statement _ hfinds => exact absurd hfinds hroom
  | put data handler _ heq hfinds =>
    obtain ⟨lost, htallied, hlost⟩ := PreemptedExecute.force_tallied h.tallied data handler
    refine ⟨hordered, lost, Nat.pos_of_ne_zero fun hzero => ?_, heq ▸ htallied⟩
    exact hroom (hfinds.mpr (hlost.mp hzero))

private theorem Short.step (h : Short s) (a : SchedulerAction H) : Short (s.step a) := by
  obtain ⟨hordered, hsettles⟩ := step_settles h.ordered a
  obtain ⟨lost, hpos, htallied⟩ := h.tallied
  cases hsettles with
  | idle heq _ => exact ⟨hordered, lost, hpos, heq ▸ htallied⟩
  | statement heq _ => exact ⟨hordered, lost, hpos, heq ▸ PreemptedExecute.advance_tallied htallied⟩
  | put data handler _ heq _ =>
    obtain ⟨lost', htallied', hlost'⟩ := PreemptedExecute.force_tallied htallied data handler
    refine ⟨hordered, lost', Nat.pos_of_ne_zero fun hzero => ?_, heq ▸ htallied'⟩
    exact hpos.ne' (htallied.unfinished_lt_iff.mp (hlost'.mp hzero)).1

private theorem run_whole_or_short (params : SchedulerParams H)
    (actions : List (SchedulerAction H)) :
    let s := Machine.run step (start params) actions
    Machine.Meets step FindsRoom (start params) actions ∧ Whole params s ∨
      ¬ Machine.Meets step FindsRoom (start params) actions ∧ Short s :=
  Machine.meets_or_spoiled actions (start_whole params) (fun _ _ h hroom => h.step hroom)
    (fun _ _ h hroom => h.spoil hroom) fun _ a h => h.step a

private theorem entering_frame (hentering : s.puts.entering = true) :
    ∃ f rest, s.frames = f :: rest ∧ f.point = .setPrimask := by
  unfold PreemptedPut.entering at hentering
  split at hentering
  · cases hentering
  · rename_i f rest hframes
    exact ⟨f, rest, hframes, by simpa using hentering⟩

/-- As long as nothing is lost the condition is that of nested puts and that of the window
together. -/
theorem findsRoom_iff (h : Whole params s) (hentering : s.puts.entering = true) :
    s.FindsRoom .advance ↔
      s.puts.EntersWithRoom .advance ∧ ∀ data handler, s.loop.SparesWindow (.put data handler) := by
  obtain ⟨f, rest, hframes, hp⟩ := entering_frame hentering
  have hsettled : s.settled = s.loop := by
    simp [settled, hframes, finish, entered, hp]
  have htallied := h.tallied
  rw [hsettled] at htallied
  have hroom : s.FindsRoom .advance ↔ s.loop.unfinished < schedulerMaxQueueSize :=
    ⟨fun hfinds => hfinds hentering, fun hlt _ => hlt⟩
  rw [hroom, htallied.room_iff]
  constructor
  · rintro ⟨hup, hwindow⟩
    exact ⟨fun _ => hup, fun _ _ hw _ _ => hwindow hw⟩
  · rintro ⟨henters, hspares⟩
    have hup : s.loop.params.isEmpty = true := henters hentering
    exact ⟨hup, fun hw => hspares none f.handler hw (Nat.zero_le _) hup⟩

/-- A put of the byte 2 is preempted between its tests and its critical section by a put of
the byte 1; a put of the byte 3 comes between the increment of the tail and its wrap. -/
def nestedSession : List (SchedulerAction Unit) :=
  let whole (byte : UInt8) : List (SchedulerAction Unit) :=
    .call (some [byte]) () :: List.replicate 13 .advance
  .call (some [2]) () :: List.replicate 3 .advance ++ whole 1 ++ List.replicate 10 .advance ++
    List.replicate 3 .execute ++ whole 3 ++ List.replicate 12 .execute

/-- In a run that meets the condition the puts are whole: what is settled is where a run of
the loop brings it that nothing but complete puts preempts, and these spare the window. It
is what the memory holds whenever interrupts are enabled. -/
theorem puts_whole (params : SchedulerParams H) (actions : List (SchedulerAction H))
    (hm : Machine.Meets step FindsRoom (start params) actions) :
    let s := Machine.run step (start params) actions
    (∃ whole,
      Machine.Meets PreemptedExecute.step PreemptedExecute.SparesWindow
        (PreemptedExecute.start params) whole ∧
      s.settled = Machine.run PreemptedExecute.step (PreemptedExecute.start params) whole) ∧
    (s.interrupts.primask = false → s.loop = s.settled) ∧
    s.settled.executed <+: s.settled.accepted := by
  intro s
  obtain ⟨_, hwhole⟩ := (run_whole_or_short params actions).resolve_right fun h => h.1 hm
  obtain ⟨waiting, hcoherent⟩ := hwhole.coherent
  refine ⟨hwhole.reached, fun hi => (settled_eq (hwhole.ordered.stacked.at_rest hi)).symm, ?_⟩
  rw [hcoherent.accepted_eq]
  exact List.prefix_append _ _

theorem puts_whole_nested :
    let s := Machine.run step (start (.zeroed ())) nestedSession
    Machine.Meets step FindsRoom (start (.zeroed ())) nestedSession ∧
      s.loop = s.settled ∧ s.settled.executed <+: s.settled.accepted :=
  have hwhole := puts_whole (.zeroed ()) nestedSession (by decide +kernel)
  ⟨by decide +kernel, hwhole.2.1 (by decide +kernel), hwhole.2.2⟩

def AtRest (s : PreemptedScheduler H) : Prop := s.frames = [] ∧ s.loop.AtRest

private theorem AtRest.settled_eq (h : s.AtRest) : s.settled = s.loop := by
  rw [settled, h.1]

private theorem AtRest.accepted_length (h : s.AtRest) {lost : Nat}
    (htallied : PreemptedExecute.Tallied s.settled lost) :
    s.loop.accepted.length = s.loop.executed.length + schedulerMaxQueueSize * lost := by
  rw [h.settled_eq] at htallied
  have hshown := h.2.shown_eq htallied
  have haccepted := htallied.accepted_eq
  rwa [hshown, Nat.add_zero] at haccepted

private theorem AtRest.executed_eq (h : s.AtRest) (hwhole : Whole params s) :
    s.loop.executed = s.loop.accepted := by
  obtain ⟨waiting, hcoherent⟩ := hwhole.coherent
  rw [h.settled_eq] at hcoherent
  have hlength := h.accepted_length hwhole.tallied
  rw [hcoherent.accepted_eq, List.length_append] at hlength
  have hnil : waiting = [] := List.eq_nil_of_length_eq_zero (by omega)
  rw [hcoherent.accepted_eq, hnil, List.append_nil]

/-- The scheduler under any preemption, exactly: in every run that comes to rest, the events
executed are the accepted ones, each once and in order, if and only if every put that masked
the interrupts found fewer than fifty unfinished. Otherwise some fifties are lost. -/
theorem rest_executed_iff (params : SchedulerParams H) (actions : List (SchedulerAction H))
    (hrest : AtRest (Machine.run step (start params) actions)) :
    let s := Machine.run step (start params) actions
    (s.loop.executed = s.loop.accepted ↔ Machine.Meets step FindsRoom (start params) actions) ∧
    ∃ lost, s.loop.accepted.length = s.loop.executed.length + schedulerMaxQueueSize * lost := by
  intro s
  obtain ⟨hm, hwhole⟩ | ⟨hm, hshort⟩ := run_whole_or_short params actions
  · exact ⟨⟨fun _ => hm, fun _ => hrest.executed_eq hwhole⟩, 0, hrest.accepted_length hwhole.tallied⟩
  · obtain ⟨lost, hpos, htallied⟩ := hshort.tallied
    have hlength : s.loop.accepted.length = s.loop.executed.length + _ :=
      hrest.accepted_length htallied
    refine ⟨⟨fun heq => ?_, fun hm' => absurd hm' hm⟩, lost, hlength⟩
    have hsome : 0 < schedulerMaxQueueSize * lost := Nat.mul_pos (Nat.zero_lt_succ 49) hpos
    rw [← heq] at hlength
    omega

/-- The nested put comes first, since its critical section does. -/
theorem rest_executed_iff_nested :
    let s := Machine.run step (start (.zeroed ())) nestedSession
    s.loop.executed.map SchedulerEvent.data = [[1], [2], [3]] ∧ s.loop.executed = s.loop.accepted :=
  ⟨by decide +kernel,
    (rest_executed_iff (.zeroed ()) nestedSession ⟨by decide +kernel, by decide +kernel,
      by decide +kernel⟩).1.mpr (by decide +kernel)⟩

/-! Left alone, the scheduler comes to rest, whatever it has lost. -/

def left : PutPoint → Nat
  | .sizeTest => 13
  | .flagTest => 12
  | .readPrimask => 11
  | .setPrimask => 10
  | .saveStatus => 9
  | .copyData => 8
  | .storeHandler => 7
  | .storeLength => 6
  | .headIncrement => 5
  | .headWrap => 4
  | .fullTest => 3
  | .restoreStatus => 2
  | .returned => 1

def putsLeft (s : PreemptedScheduler H) : Nat := (s.frames.map fun f => left f.point).sum

private theorem advance_frames (s : PreemptedPut H) (f : PutFrame H) (rest : List (PutFrame H)) :
    (s.advance f rest).frames = rest ∨
      ∃ f', (s.advance f rest).frames = f' :: rest ∧ left f'.point < left f.point := by
  cases hp : f.point <;> simp only [PreemptedPut.advance, hp]
  case returned => exact .inl trivial
  case sizeTest | flagTest =>
    refine .inr ⟨_, rfl, ?_⟩
    dsimp only
    split_ifs <;> decide
  all_goals exact .inr ⟨_, rfl, Nat.lt_succ_self _⟩

private theorem putsLeft_step (s : PreemptedScheduler H) :
    (s.step .advance).putsLeft ≤ s.putsLeft - 1 := by
  cases hframes : s.frames with
  | nil =>
    simp [step, PreemptedPut.step, withPuts, putsLeft, puts, hframes]
  | cons f rest =>
    have hpos : 0 < left f.point := by cases f.point <;> decide
    rw [step_advance hframes, putsLeft, putsLeft, hframes, List.map_cons, List.sum_cons]
    change ((s.puts.advance f rest).frames.map _).sum ≤ _
    obtain hend | ⟨f', hnext, hless⟩ := advance_frames s.puts f rest
    · rw [hend]
      omega
    · rw [hnext, List.map_cons, List.sum_cons]
      omega

private theorem left_sum_le (frames : List (PutFrame H)) :
    (frames.map fun f => left f.point).sum ≤ 13 * frames.length := by
  induction frames with
  | nil => exact Nat.le_refl 0
  | cons f rest ih =>
    have hleft : left f.point ≤ 13 := by cases f.point <;> decide
    rw [List.map_cons, List.sum_cons, List.length_cons]
    omega

private theorem puts_end (s : PreemptedScheduler H) {n : Nat} (hn : s.putsLeft ≤ n) :
    (Machine.run step s (List.replicate n .advance)).frames = [] := by
  induction n generalizing s with
  | zero =>
    cases hframes : s.frames with
    | nil => exact hframes
    | cons f rest =>
      rw [putsLeft, hframes, List.map_cons, List.sum_cons] at hn
      cases hp : f.point <;> simp only [hp, left] at hn <;> omega
  | succ n ih =>
    rw [List.replicate_succ, Machine.run_cons]
    refine ih _ ?_
    have := putsLeft_step s
    omega

private theorem run_execute (s : PreemptedScheduler H) (hframes : s.frames = []) (n : Nat) :
    Machine.run step s (List.replicate n .execute) =
      { s with loop := PreemptedExecute.advance^[n] s.loop } := by
  induction n generalizing s with
  | zero => rfl
  | succ n ih =>
    have hstep : s.step .execute = { s with loop := s.loop.advance } := by simp [step, hframes]
    rw [List.replicate_succ, Machine.run_cons, hstep]
    exact ih { s with loop := s.loop.advance } hframes

private theorem loop_ends (hframes : s.frames = []) {lost : Nat}
    (h : PreemptedExecute.Tallied s.settled lost) {n : Nat} (hn : 5 * schedulerMaxQueueSize ≤ n) :
    AtRest (Machine.run step s (List.replicate n .execute)) := by
  rw [settled_eq (by simp [hframes])] at h
  rw [run_execute s hframes]
  exact ⟨hframes, PreemptedExecute.drained h (Nat.le_trans h.toRest_le hn)⟩

private theorem run_tallied (params : SchedulerParams H) (actions : List (SchedulerAction H)) :
    ∃ lost, PreemptedExecute.Tallied (Machine.run step (start params) actions).settled lost := by
  obtain ⟨_, hwhole⟩ | ⟨_, hshort⟩ := run_whole_or_short params actions
  · exact ⟨0, hwhole.tallied⟩
  · obtain ⟨lost, _, htallied⟩ := hshort.tallied
    exact ⟨lost, htallied⟩

/-- From every state of every run the statements of the puts that are under way, thirteen for
each at most, and then five of the loop for each of fifty events bring the scheduler to rest. -/
theorem comes_to_rest (params : SchedulerParams H) (actions : List (SchedulerAction H)) :
    let s := Machine.run step (start params) actions
    let ended := Machine.run step s (List.replicate (13 * s.frames.length) .advance)
    AtRest (Machine.run step ended (List.replicate (5 * schedulerMaxQueueSize) .execute)) := by
  intro s ended
  have hended : ended = Machine.run step (start params)
      (actions ++ List.replicate (13 * s.frames.length) .advance) := by
    rw [Machine.run_append]
  obtain ⟨lost, htallied⟩ := run_tallied params
    (actions ++ List.replicate (13 * s.frames.length) .advance)
  rw [← hended] at htallied
  exact loop_ends (puts_end s (left_sum_le s.frames)) htallied (Nat.le_refl _)

end PreemptedScheduler
end ClosedLoopStepper.Scheduler
