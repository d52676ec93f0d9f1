import ClosedLoopStepper.Scheduler.Session
import ClosedLoopStepper.Encoder.Service

/-! The two modes of running the handlers, at once or through the scheduler's queue. The
driver announces the same in both; the queue is given the step handler for a home event
too, so the calls are the same unless a home pulse finds two different handlers. -/
namespace ClosedLoopStepper.Encoder
open Foundations Scheduler
variable {H : Type}

inductive Notice
  | step | home
  deriving DecidableEq, Repr

def Notice.handler (step home : H) : Notice → H
  | .step => step
  | .home => home

def Notice.dispatched (step home : H) : EncoderDrvEventHandling → Notice → Dispatch H
  | .immediate, n => .call (n.handler step home)
  | .scheduled, _ => .put (some step)

namespace EncoderDrv

/-- The callback without its dispatch: the driver it leaves, and what it announces. -/
def observe (drv : EncoderDrv H) (i : PinInterrupt) : EncoderDrv H × Option Notice :=
  if i.gpio = encoderDrvPinAAnticlockwise ∨ i.gpio = encoderDrvPinBClockwise then
    if i.eventMask = gpioIrqEdgeRise then
      let edge := if i.gpio = encoderDrvPinAAnticlockwise then drv.edgeA i.levelB
        else drv.edgeB i.levelA
      ({ edge with encoderPositionUpdateNotification := false },
        if edge.encoderPositionUpdateNotification then some .step else none)
    else (drv, none)
  else if i.Home then (drv.edgeZ.1, some .home)
  else (drv, none)

variable {drv : EncoderDrv H} {step home : H}

private theorem edge_registration (drv : EncoderDrv H) (i : PinInterrupt) :
    SameRegistration drv (if i.gpio = encoderDrvPinAAnticlockwise then drv.edgeA i.levelB
      else drv.edgeB i.levelA) := by
  split_ifs
  · exact edgeA_registration drv i.levelB
  · exact edgeB_registration drv i.levelA

private theorem serve_observe (h : drv.eventHandlers = ⟨some step, some home⟩) (i : PinInterrupt) :
    drv.serve i = ((drv.observe i).1,
      (drv.observe i).2.map (Notice.dispatched step home drv.eventHandling)) := by
  unfold serve encoderDrvStepHomePinTransitionsCallback observe
  by_cases hpin : i.gpio = encoderDrvPinAAnticlockwise ∨ i.gpio = encoderDrvPinBClockwise
  · rw [if_pos hpin, if_pos hpin]
    by_cases hrise : i.eventMask = gpioIrqEdgeRise
    · rw [if_pos hrise, if_pos hrise]
      dsimp only
      have hedge := edge_registration drv i
      generalize (if i.gpio = encoderDrvPinAAnticlockwise then drv.edgeA i.levelB
        else drv.edgeB i.levelA) = edge at hedge ⊢
      have hstep : edge.eventHandlers.stepActivityEventHandler = some step := by
        rw [hedge.1, h]
      rw [notifyStep_registered edge hstep]
      cases edge.encoderPositionUpdateNotification with
      | false => rfl
      | true =>
        rw [runs, hedge.2]
        cases drv.eventHandling <;> rfl
    · rw [if_neg hrise, if_neg hrise]
      rfl
  · rw [if_neg hpin, if_neg hpin]
    by_cases hz : i.gpio = encoderDrvPinZHome
    · by_cases hrise : i.eventMask = gpioIrqEdgeRise
      · rw [if_pos hz, if_pos hrise, if_pos ⟨hz, hrise⟩, edgeZ, h]
        cases drv.eventHandling <;> rfl
      · rw [if_pos hz, if_neg hrise, if_neg fun hhome => hrise hhome.2]
        rfl
    · rw [if_neg hz, if_neg fun hhome => hz hhome.1]
      rfl

private theorem edge_handling (drv : EncoderDrv H) (handling : EncoderDrvEventHandling)
    (level : Bool) :
    { drv with eventHandling := handling }.edgeA level =
        { drv.edgeA level with eventHandling := handling } ∧
      { drv with eventHandling := handling }.edgeB level =
        { drv.edgeB level with eventHandling := handling } := by
  obtain ⟨_, _, _, _, failedAnticlockwise, failedClockwise, _⟩ := drv
  cases level with
  | false => exact ⟨rfl, rfl⟩
  | true => cases failedAnticlockwise <;> cases failedClockwise <;> exact ⟨rfl, rfl⟩

private theorem observe_handling (drv : EncoderDrv H) (handling : EncoderDrvEventHandling)
    (i : PinInterrupt) :
    { drv with eventHandling := handling }.observe i =
      ({ (drv.observe i).1 with eventHandling := handling }, (drv.observe i).2) := by
  unfold observe
  by_cases hpin : i.gpio = encoderDrvPinAAnticlockwise ∨ i.gpio = encoderDrvPinBClockwise
  · rw [if_pos hpin, if_pos hpin]
    by_cases hrise : i.eventMask = gpioIrqEdgeRise
    · rw [if_pos hrise, if_pos hrise, (edge_handling drv handling i.levelB).1,
        (edge_handling drv handling i.levelA).2]
      dsimp only
      split <;> rfl
    · rw [if_neg hrise, if_neg hrise]
  · rw [if_neg hpin, if_neg hpin]
    split_ifs <;> rfl

private theorem observe_registration (drv : EncoderDrv H) (i : PinInterrupt) :
    SameRegistration drv (drv.observe i).1 := by
  unfold observe
  split
  · split
    · exact edge_registration drv i
    · exact ⟨rfl, rfl⟩
  · split <;> exact ⟨rfl, rfl⟩

end EncoderDrv

/-- The driver and the scheduler, with a record of the handler calls. A queued pointer may
be NULL. -/
structure Listener (H : Type) where
  driver : EncoderDrv H
  scheduler : SchedulerParams (Option H)
  calls : List (Option H)

inductive Occurrence
  | interrupt (i : PinInterrupt)
  | execute
  deriving DecidableEq, Repr

namespace Listener

def start (drv : EncoderDrv H) (eventHandlers : EncoderDrvEventHandlers H)
    (eventHandling : EncoderDrvEventHandling) (scheduler : SchedulerParams (Option H)) :
    Listener H :=
  ⟨encoderDrvInit drv eventHandlers eventHandling, (schedulerInit scheduler).1, []⟩

def dispatch (l : Listener H) : Option (Dispatch H) → Listener H
  | some (.call handler) => { l with calls := l.calls ++ [some handler] }
  | some (.put handler) => { l with scheduler := (putData l.scheduler none handler).1 }
  | none => l

/-- The handlers put no events, so a call only goes on record. -/
def executeEvent (l : Listener H) : Listener H :=
  match EventQueue.current l.scheduler with
  | some e =>
    { l with scheduler := EventQueue.complete l.scheduler, calls := l.calls ++ [e.handler] }
  | none => l

def step (l : Listener H) : Occurrence → Listener H
  | .interrupt i =>
    let next := l.driver.serve i
    { l with driver := next.1 }.dispatch next.2
  | .execute => l.executeEvent

def schedulerExecute : Nat → Listener H → Option (Listener H)
  | 0, l => if (EventQueue.current l.scheduler).isSome then none else some l
  | fuel + 1, l =>
    if (EventQueue.current l.scheduler).isSome then schedulerExecute fuel l.executeEvent
    else some l

def Fits (l : Listener H) : Occurrence → Prop
  | .interrupt i =>
    match (l.driver.serve i).2 with
    | some (.put handler) => (putData l.scheduler none handler).2 = .success
    | _ => True
  | .execute => True

instance (l : Listener H) : ∀ o, Decidable (l.Fits o)
  | .interrupt i => by
    unfold Fits
    dsimp only
    split <;> exact inferInstance
  | .execute => inferInstanceAs (Decidable True)

end Listener

def Occurrence.noticed (drv : EncoderDrv H) : Occurrence → EncoderDrv H × List Notice
  | .interrupt i => ((drv.observe i).1, (drv.observe i).2.toList)
  | .execute => (drv, [])

def notices : EncoderDrv H → List Occurrence → List Notice
  | _, [] => []
  | drv, o :: rest => (o.noticed drv).2 ++ notices (o.noticed drv).1 rest

def Occurrence.HomePulse : Occurrence → Prop
  | .interrupt i => i.Home
  | .execute => False

private theorem observe_home (drv : EncoderDrv H) (i : PinInterrupt) :
    (drv.observe i).2 = some .home ↔ i.Home := by
  unfold EncoderDrv.observe
  by_cases hpin : i.gpio = encoderDrvPinAAnticlockwise ∨ i.gpio = encoderDrvPinBClockwise
  · have hne : ¬ i.Home := by
      rintro ⟨hz, _⟩
      rw [hz] at hpin
      revert hpin
      decide
    rw [if_pos hpin]
    refine iff_of_false ?_ hne
    split
    · dsimp only
      split <;> simp
    · simp
  · rw [if_neg hpin]
    by_cases hhome : i.Home
    · rw [if_pos hhome]
      exact iff_of_true rfl hhome
    · rw [if_neg hhome]
      exact iff_of_false (by simp) hhome

/-- A home event is announced for each home pulse and for nothing else. -/
theorem home_mem_notices (drv : EncoderDrv H) (inputs : List Occurrence) :
    .home ∈ notices drv inputs ↔ ∃ o ∈ inputs, o.HomePulse := by
  induction inputs generalizing drv with
  | nil => simp [notices]
  | cons o rest ih =>
    have hfirst : .home ∈ (o.noticed drv).2 ↔ o.HomePulse := by
      cases o with
      | interrupt i =>
        rw [Occurrence.HomePulse, ← observe_home drv i, Occurrence.noticed, Option.mem_toList]
      | execute => simp [Occurrence.noticed, Occurrence.HomePulse]
    rw [notices, List.mem_append, ih, hfirst, List.exists_mem_cons_iff]

namespace Listener
variable {step home : H}

/-- The same occurrences in both modes: what was called at once is in the other mode
either called by now or waiting, each time as a call of the step handler. -/
structure Deferred (step home : H) (announced : List Notice) (immediate scheduled : Listener H) :
    Prop where
  registered : immediate.driver.eventHandlers = ⟨some step, some home⟩
  mode : immediate.driver.eventHandling = .immediate
  driver : scheduled.driver = { immediate.driver with eventHandling := .scheduled }
  idle : Denotes immediate.scheduler []
  called : immediate.calls = announced.map fun n => some (n.handler step home)
  queued : ∃ executed waiting, executed + waiting = announced.length ∧
    scheduled.calls = List.replicate executed (some step) ∧
    Denotes scheduled.scheduler (List.replicate waiting ⟨some step, []⟩)

variable {announced : List Notice} {immediate scheduled : Listener H}

private theorem interrupt_deferred (h : Deferred step home announced immediate scheduled)
    (i : PinInterrupt) (hfits : scheduled.Fits (.interrupt i)) :
    Deferred step home (announced ++ (immediate.driver.observe i).2.toList)
      (immediate.step (.interrupt i)) (scheduled.step (.interrupt i)) := by
  have hregistration := EncoderDrv.observe_registration immediate.driver i
  have himmediate := EncoderDrv.serve_observe h.registered i
  have hscheduled : scheduled.driver.serve i =
      ({ (immediate.driver.observe i).1 with eventHandling := .scheduled },
        (immediate.driver.observe i).2.map (Notice.dispatched step home .scheduled)) := by
    have hregistered : { immediate.driver with eventHandling := .scheduled }.eventHandlers =
        ⟨some step, some home⟩ := h.registered
    rw [h.driver, EncoderDrv.serve_observe hregistered, EncoderDrv.observe_handling]
  rw [h.mode] at himmediate
  rw [Fits, hscheduled] at hfits
  obtain ⟨executed, waiting, hcount, hcalls, hdenotes⟩ := h.queued
  rw [Listener.step, Listener.step, himmediate, hscheduled]
  cases hnotice : (immediate.driver.observe i).2 with
  | none =>
    refine ⟨hregistration.1.trans h.registered, hregistration.2.trans h.mode, rfl, h.idle, ?_, ?_⟩
    · simpa [dispatch] using h.called
    · exact ⟨executed, waiting, by simpa using hcount, hcalls, hdenotes⟩
  | some n =>
    rw [hnotice] at hfits
    refine ⟨hregistration.1.trans h.registered, hregistration.2.trans h.mode, rfl, h.idle, ?_, ?_⟩
    · simp [dispatch, Notice.dispatched, h.called]
    · have hput : (putData scheduled.scheduler none (some step)).2 = .success := hfits
      refine ⟨executed, waiting + 1, ?_, hcalls, ?_⟩
      · rw [Option.toList_some, List.length_append, List.length_singleton]
        omega
      · rcases putData_cases none (some step) hdenotes with ⟨_, he⟩ | ⟨_, _, he⟩ | ⟨_, _, _, hd⟩
        · rw [he] at hput
          cases hput
        · rw [he] at hput
          cases hput
        · rw [List.replicate_succ']
          exact hd

private theorem execute_deferred (h : Deferred step home announced immediate scheduled) :
    Deferred step home announced (immediate.step .execute) (scheduled.step .execute) := by
  obtain ⟨executed, waiting, hcount, hcalls, hdenotes⟩ := h.queued
  have hidle : immediate.step .execute = immediate := by
    rw [Listener.step, executeEvent, h.idle.current_eq]
    rfl
  rw [hidle, Listener.step, executeEvent, hdenotes.current_eq]
  cases waiting with
  | zero => exact ⟨h.registered, h.mode, h.driver, h.idle, h.called, executed, 0, hcount, hcalls, hdenotes⟩
  | succ waiting =>
    refine ⟨h.registered, h.mode, h.driver, h.idle, h.called, executed + 1, waiting, by omega, ?_,
      hdenotes.complete⟩
    rw [List.replicate_succ' (n := executed), ← hcalls]
    rfl

private theorem step_driver (h : immediate.driver.eventHandlers = ⟨some step, some home⟩)
    (o : Occurrence) : (immediate.step o).driver = (o.noticed immediate.driver).1 := by
  cases o with
  | interrupt i =>
    have hserve := EncoderDrv.serve_observe h i
    rw [Listener.step, hserve]
    cases (immediate.driver.observe i).2 with
    | none => rfl
    | some n => cases immediate.driver.eventHandling <;> rfl
  | execute =>
    rw [Listener.step, executeEvent]
    split <;> rfl

private theorem run_deferred (h : Deferred step home announced immediate scheduled)
    {inputs : List Occurrence} (hfits : Machine.Meets Listener.step Fits scheduled inputs) :
    Deferred step home (announced ++ notices immediate.driver inputs)
      (Machine.run Listener.step immediate inputs) (Machine.run Listener.step scheduled inputs) := by
  induction inputs generalizing announced immediate scheduled with
  | nil => simpa [notices] using h
  | cons o rest ih =>
    have hnext : Deferred step home (announced ++ (o.noticed immediate.driver).2)
        (immediate.step o) (scheduled.step o) := by
      cases o with
      | interrupt i => exact interrupt_deferred h i hfits.1
      | execute => simpa [Occurrence.noticed] using execute_deferred h
    have hrest := ih hnext hfits.2
    rw [step_driver h.registered o, List.append_assoc] at hrest
    exact hrest

/-- With fuel for what is waiting, the execution loop calls it all. -/
theorem schedulerExecute_calls {l : Listener H} {waiting fuel : Nat} (hfuel : waiting ≤ fuel)
    (h : Denotes l.scheduler (List.replicate waiting ⟨some step, []⟩)) :
    ∃ last, l.schedulerExecute fuel = some last ∧ last.driver = l.driver ∧
      last.calls = l.calls ++ List.replicate waiting (some step) := by
  induction waiting generalizing l fuel with
  | zero =>
    have hnone : (EventQueue.current l.scheduler).isSome = false :=
      congrArg Option.isSome h.current_eq
    have hreturns : l.schedulerExecute fuel = some l :=
      Machine.loop_stops schedulerExecute (fun l => (EventQueue.current l.scheduler).isSome) id
        (fun _ => rfl) (fun _ _ => rfl) hnone fuel
    exact ⟨l, hreturns, rfl, (List.append_nil _).symm⟩
  | succ waiting ih =>
    cases fuel with
    | zero => omega
    | succ fuel =>
      have hcurrent := h.current_eq
      rw [List.replicate_succ, List.head?_cons] at hcurrent
      have hnext : l.executeEvent =
          { l with scheduler := l.scheduler.completeEvent, calls := l.calls ++ [some step] } := by
        rw [executeEvent, hcurrent]
        rfl
      have hrest : Denotes l.executeEvent.scheduler (List.replicate waiting ⟨some step, []⟩) := by
        rw [hnext]
        exact h.complete
      obtain ⟨last, hlast, hdriver, hcalls⟩ := ih (by omega : waiting ≤ fuel) hrest
      refine ⟨last, ?_, ?_, ?_⟩
      · rw [schedulerExecute, hcurrent]
        exact hlast
      · rw [hdriver, hnext]
      · rw [hcalls, hnext, List.replicate_succ, List.append_assoc]
        rfl

end Listener

private theorem replicate_eq_calls_iff (step home : H) (announced : List Notice) :
    List.replicate announced.length (some step) =
        (announced.map fun n => some (n.handler step home)) ↔
      (step = home ∨ .home ∉ announced) := by
  induction announced with
  | nil => simp
  | cons n rest ih =>
    rw [List.length_cons, List.replicate_succ, List.map_cons, List.cons.injEq, ih]
    cases n with
    | step => simp [Notice.handler]
    | home =>
      simp only [Notice.handler, Option.some.injEq, List.mem_cons, true_or, not_true, or_false]
      exact ⟨And.left, fun h => ⟨h, .inl h⟩⟩

/-- In scheduled mode, the calls made by the time the queue is drained are those that
immediate mode makes, and the driver's variables are the same, exactly when the handlers
are one and the same function or no home pulse came. -/
theorem scheduled_calls_eq_iff (drv : EncoderDrv H) (step home : H)
    (scheduler : SchedulerParams (Option H)) (inputs : List Occurrence)
    (hfits : Machine.Meets Listener.step Listener.Fits
      (.start drv ⟨some step, some home⟩ .scheduled scheduler) inputs) :
    let immediate := Machine.run Listener.step
      (.start drv ⟨some step, some home⟩ .immediate scheduler) inputs
    let scheduled := Machine.run Listener.step
      (.start drv ⟨some step, some home⟩ .scheduled scheduler) inputs
    ∃ drained, scheduled.schedulerExecute schedulerMaxQueueSize = some drained ∧
      (drained.calls = immediate.calls ∧
          drained.driver = { immediate.driver with eventHandling := .scheduled } ↔
        step = home ∨ ∀ o ∈ inputs, ¬ o.HomePulse) := by
  intro immediate scheduled
  have hempty : Denotes (schedulerInit scheduler).1 [] := Denotes.init scheduler
  have hstart : Listener.Deferred step home []
      (.start drv ⟨some step, some home⟩ .immediate scheduler)
      (.start drv ⟨some step, some home⟩ .scheduled scheduler) :=
    ⟨rfl, rfl, rfl, hempty, rfl, 0, 0, rfl, rfl, hempty⟩
  have h := Listener.run_deferred hstart hfits
  rw [List.nil_append] at h
  obtain ⟨executed, waiting, hcount, hcalls, hdenotes⟩ := h.queued
  have hfuel : waiting ≤ schedulerMaxQueueSize := by
    have hle := hdenotes.length_le
    rwa [List.length_replicate] at hle
  obtain ⟨drained, hdrained, hdriver, hall⟩ := Listener.schedulerExecute_calls hfuel hdenotes
  refine ⟨drained, hdrained, ?_⟩
  have hdrv : drained.driver = { immediate.driver with eventHandling := .scheduled } :=
    hdriver.trans h.driver
  rw [hcalls, ← List.replicate_add, hcount] at hall
  rw [and_iff_left hdrv, hall, h.called, replicate_eq_calls_iff, home_mem_notices]
  simp only [not_exists, not_and]

/-- The driver as it starts, with a step handler `false` and a home handler `true`. -/
def listening (eventHandling : EncoderDrvEventHandling) : Listener Bool :=
  .start .initial ⟨some false, some true⟩ eventHandling (.zeroed none)

/-- Two cycles with a turn of the loop in the first one, and no home pulse. -/
theorem scheduled_calls_eq_cycles :
    let inputs := [.interrupt (.riseA false), .execute, .interrupt (.riseB true),
      .interrupt (.riseA false), .interrupt (.riseB true)]
    let immediate := Machine.run Listener.step (listening .immediate) inputs
    let scheduled := Machine.run Listener.step (listening .scheduled) inputs
    ∃ drained, scheduled.schedulerExecute schedulerMaxQueueSize = some drained ∧
      (drained.calls = immediate.calls ∧
          drained.driver = { immediate.driver with eventHandling := .scheduled } ↔
        false = true ∨ ∀ o ∈ inputs, ¬ o.HomePulse) :=
  scheduled_calls_eq_iff .initial false true (.zeroed none) _ (by decide)

/-- A home pulse is given to the step handler in scheduled mode. -/
theorem home_pulse_calls_step :
    let inputs := [.interrupt .riseZ]
    let immediate := Machine.run Listener.step (listening .immediate) inputs
    let scheduled := Machine.run Listener.step (listening .scheduled) inputs
    Machine.Meets Listener.step Listener.Fits (listening .scheduled) inputs ∧
      immediate.calls = [some true] ∧
      (scheduled.schedulerExecute schedulerMaxQueueSize).map Listener.calls = some [some false] := by
  decide

end ClosedLoopStepper.Encoder
