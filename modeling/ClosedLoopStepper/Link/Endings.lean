import ClosedLoopStepper.Device.Recovery
import ClosedLoopStepper.Link.Safety

/-! When a program can still end. The commander sends its command once and waits without
a limit, so a command that the device has dropped, or is bound to drop, is never answered;
in every other state some continuation of the dialogue ends the program. -/
namespace ClosedLoopStepper.Link
open Foundations Foundations.Framing Scheduler Ipc Encoder StepperMotor Application Device

def Ends (d : Dialogue) : Prop := ∃ steps, (Machine.run Dialogue.step d steps).asked = none

def homes : Task → Bool
  | .stateMachine eventData => eventData.type = .homeActivity
  | .postProcessing _ => false

def homed (c : Controller) (tasks : List Task) : Bool :=
  decide (c.state ≠ .calibration ∨ tasks.any homes = true)

/-- No command will be executed for what is pending: there is no request left; or its
packet will find too little room for the command, or for the home event that must come
first; or the command will find the application not ready. -/
inductive Doomed (c : Controller) : Prop
  | gone (hnone : requests c.tasks = [])
  | packet {before after : List Task} {params : IpcReceivedDataPacketPostProcessingParams}
      (ht : c.tasks = before ++ .postProcessing params :: after)
      (hbefore : requests before = []) (hafter : requests after = [])
      (hroom : schedulerMaxQueueSize ≤ after.length + 1 + if homed c c.tasks then 0 else 1)
  | command {before after : List Task} {cmd : UserApplicationMessagesCmdSetStepperMotorAngle}
      (ht : c.tasks = before ++ .stateMachine ⟨.processCmdRequest, cmd⟩ :: after)
      (hbefore : requests before = []) (hafter : requests after = [])
      (hhomed : homed c before = false)

/-- The program waits and nothing of its command is left that could be answered. -/
structure Hopeless (d : Dialogue) : Prop where
  asked_ne : d.asked ≠ none
  toDevice_eq : d.toDevice = []
  arriving_eq : d.port ++ d.toCommander = []
  state_ne : d.device.controller.state ≠ .execution
  doomed : Doomed d.device.controller

section Tasks
variable {c next : Controller} {r : Receiver} {pending rest : List Task}
  {eventData : UserApplicationStateMachineEventData}

private theorem requests_cons {t : Task} {tasks : List Task} (h : requests (t :: tasks) = []) :
    isRequest t = false ∧ requests tasks = [] := by
  rw [requests, List.filter_cons] at h
  split at h
  · cases h
  · exact ⟨Bool.eq_false_iff.mpr ‹_›, h⟩

private theorem requests_concat {tasks : List Task} (h : requests tasks = []) {t : Task}
    (ht : isRequest t = false) : requests (tasks ++ [t]) = [] := by
  rw [requests_append, h, requests, List.filter_singleton, ht]
  rfl

private theorem turn_tasks (hother : isRequest (.stateMachine eventData) = false)
    (h : Turn c eventData rest next) : next.tasks = rest := by
  cases h with
  | immediate haccept =>
    rw [request_of_accepts haccept] at hother
    cases hother
  | _ => rfl

private theorem homed_congr (h : next.state = c.state) (tasks : List Task) :
    homed next tasks = homed c tasks := by
  unfold homed
  rw [h]

private theorem homed_cons {t : Task} (h : homes t = false) (tasks : List Task) :
    homed c (t :: tasks) = homed c tasks := by
  unfold homed
  rw [List.any_cons, h, Bool.false_or]

private theorem homed_left (h : c.state ≠ .calibration) (tasks : List Task) :
    homed c tasks = true :=
  decide_eq_true (.inl h)

private theorem homes_other {type : UserApplicationStateMachineEventType}
    (h : eventData.type = type)
    (hother : type ≠ .homeActivity) : homes (.stateMachine eventData) = false := by
  rw [← h] at hother
  exact decide_eq_false hother

private theorem turn_homed (hstate : c.state ≠ .execution)
    (hother : isRequest (.stateMachine eventData) = false) (h : Turn c eventData rest next)
    (tasks : List Task) : homed next tasks = homed c (.stateMachine eventData :: tasks) := by
  have haccept : ¬ Accepts c.userApplication eventData := fun ha => by
    rw [request_of_accepts ha] at hother
    cases hother
  cases h with
  | calibrate _ htype =>
    rw [homed_cons (homes_other htype nofun)]
    exact homed_congr rfl tasks
  | home _ htype =>
    have hhomes : homes (.stateMachine eventData) = true := decide_eq_true htype
    have hready : homed { c with
        tasks := rest
        userApplication := ⟨.ready, c.params⟩
        stepperMotor := ⟨c.stepperMotor.dirPin, false⟩
        log := c.log ++ [.drive .stop] } tasks = true := homed_left (by nofun) tasks
    rw [hready, homed, List.any_cons, hhomes]
    exact (decide_eq_true (.inr rfl)).symm
  | immediate ha => exact absurd ha haccept
  | anticlockwise ha => exact absurd ha haccept
  | clockwise ha => exact absurd ha haccept
  | finish hfinish => exact absurd hfinish.1 hstate
  | ignore _ _ hcalibration =>
    have hsame (tasks : List Task) : homed { c with tasks := rest } tasks = homed c tasks :=
      homed_congr rfl tasks
    by_cases hcase : c.state = .calibration
    · rw [hsame, homed_cons]
      rcases hcalibration hcase with htype | htype
      · exact homes_other htype nofun
      · exact homes_other htype nofun
    · rw [hsame, homed_left hcase, homed_left hcase]

/-- A turn does not save a command that is doomed, and sends nothing. -/
theorem Doomed.execute (hsaved : c.Saved) (hstate : c.state ≠ .execution) (h : Doomed c) :
    Doomed c.execute ∧ c.execute.state ≠ .execution ∧
      (c.execute.log.drop c.log.length).filterMap Output.response = [] := by
  rcases execute_cases hsaved with ⟨_, he⟩ | ⟨params, rest, ht, he⟩ | ⟨eventData, rest, ht, hturn⟩
  · rw [he]
    exact ⟨h, hstate, (Quietly.refl c).sent_eq⟩
  · rw [he, runPostProcessing_eq ht]
    refine ⟨?_, hstate, ?_⟩
    · cases h with
      | gone hnone =>
        rw [ht] at hnone
        cases (requests_cons hnone).1
      | @command before after cmd hsplit hbefore =>
        cases before with
        | nil => cases ht.symm.trans hsplit
        | cons x before =>
          cases ht.symm.trans hsplit
          cases (requests_cons hbefore).1
      | @packet before after params' hsplit hbefore hafter hroom =>
        cases before with
        | cons x before =>
          cases ht.symm.trans hsplit
          cases (requests_cons hbefore).1
        | nil =>
          cases ht.symm.trans hsplit
          -- with room for the command there is none for the home event before it
          split
          · have hlength : rest.length + 1 < schedulerMaxQueueSize := by
              have hlt := (‹_ ∧ _› : _ ∧ _).2
              rw [ht] at hlt
              exact hlt
            cases hhomed : homed c c.tasks with
            | true =>
              rw [hhomed, if_pos rfl] at hroom
              omega
            | false =>
              rw [ht, homed_cons rfl] at hhomed
              exact .command rfl hafter rfl hhomed
          · refine .gone ?_
            change requests (rest ++ []) = []
            rw [List.append_nil]
            exact hafter
    · dsimp only
      rw [List.drop_left]
      rfl
  · have hfinish : ¬ Finishes c.userApplication c.position eventData := fun hf => hstate hf.1
    have hquiet := (turn_quietly hfinish hturn).sent_eq
    have hother (hfalse : isRequest (.stateMachine eventData) = false) :
        ¬ Accepts c.userApplication eventData := fun ha => by
      rw [request_of_accepts ha] at hfalse
      cases hfalse
    cases h with
    | gone hnone =>
      rw [ht] at hnone
      obtain ⟨hfalse, hrest⟩ := requests_cons hnone
      exact ⟨.gone ((turn_requests hturn).trans hrest), turn_rests hstate (hother hfalse) hturn,
        hquiet⟩
    | @packet before after params hsplit hbefore hafter hroom =>
      cases before with
      | nil => cases ht.symm.trans hsplit
      | cons x before =>
        obtain ⟨rfl, rfl⟩ := List.cons.inj (ht.symm.trans hsplit)
        obtain ⟨hfalse, hrest⟩ := requests_cons hbefore
        have htasks := turn_tasks hfalse hturn
        refine ⟨.packet htasks hrest hafter ?_, turn_rests hstate (hother hfalse) hturn, hquiet⟩
        rw [htasks, turn_homed hstate hfalse hturn, ← ht]
        exact hroom
    | @command before after cmd hsplit hbefore hafter hhomed =>
      cases before with
      | nil =>
        obtain ⟨heq, rfl⟩ := List.cons.inj (ht.symm.trans hsplit)
        cases heq
        have hcalibration : c.state = .calibration := by
          by_contra hne
          rw [homed_left hne] at hhomed
          cases hhomed
        have haccept : ¬ Accepts c.userApplication ⟨.processCmdRequest, cmd⟩ :=
          fun ha => by cases ha.1.symm.trans hcalibration
        exact ⟨.gone ((turn_requests hturn).trans hafter), turn_rests hstate haccept hturn, hquiet⟩
      | cons x before =>
        obtain ⟨rfl, rfl⟩ := List.cons.inj (ht.symm.trans hsplit)
        obtain ⟨hfalse, hrest⟩ := requests_cons hbefore
        refine ⟨.command (turn_tasks hfalse hturn) hrest hafter ?_,
          turn_rests hstate (hother hfalse) hturn, hquiet⟩
        rw [turn_homed hstate hfalse hturn]
        exact hhomed

/-- Nor does a pin interrupt: a home event now comes too late, or takes the room. -/
theorem Doomed.pinTransition (h : Doomed c) (gpio eventMask : Nat) (levelA levelB : Bool) :
    Doomed (c.pinTransition gpio eventMask levelA levelB) := by
  have htasks : (c.pinTransition gpio eventMask levelA levelB).tasks = c.tasks ∨
      ∃ t, isRequest t = false ∧
        (c.pinTransition gpio eventMask levelA levelB).tasks = c.tasks ++ [t] := by
    rcases c.pinTransition_tasks gpio eventMask levelA levelB with h | ⟨type, rfl | rfl, h⟩
    · exact .inl h
    · exact .inr ⟨_, rfl, h⟩
    · exact .inr ⟨_, rfl, h⟩
  have hhomed (tasks : List Task) :
      homed (c.pinTransition gpio eventMask levelA levelB) tasks = homed c tasks :=
    homed_congr rfl tasks
  rcases htasks with hsame | ⟨t, ht, hadded⟩
  · cases h with
    | gone hnone => exact .gone (by rw [hsame]; exact hnone)
    | packet hsplit hbefore hafter hroom =>
      exact .packet (hsame.trans hsplit) hbefore hafter (by rw [hsame, hhomed]; exact hroom)
    | command hsplit hbefore hafter hlate =>
      exact .command (hsame.trans hsplit) hbefore hafter (by rw [hhomed]; exact hlate)
  · cases h with
    | gone hnone => exact .gone (by rw [hadded]; exact requests_concat hnone ht)
    | packet hsplit hbefore hafter hroom =>
      rw [hsplit, List.append_assoc, List.cons_append] at hadded
      refine .packet hadded hbefore (requests_concat hafter ht) ?_
      rw [List.length_append, List.length_singleton]
      split at hroom <;> omega
    | command hsplit hbefore hafter hlate =>
      rw [hsplit, List.append_assoc, List.cons_append] at hadded
      exact .command hadded hbefore (requests_concat hafter ht) (by rw [hhomed]; exact hlate)

end Tasks

section Waiting
variable {d : Dialogue}

private theorem Dialogue.execute_controller (h : Sound d.device) :
    (d.step .execute).device.controller = d.device.controller.execute :=
  (run_sound h [.execute]).2

private theorem Dialogue.pinTransition_controller (h : Sound d.device) (gpio eventMask : Nat)
    (levelA levelB : Bool) :
    (d.step (.pinTransition gpio eventMask levelA levelB)).device.controller =
      d.device.controller.pinTransition gpio eventMask levelA levelB :=
  (run_sound h [.pinTransition gpio eventMask levelA levelB]).2

theorem Hopeless.proceed (h : Hopeless d) {device : Firmware (SchedulerParams Handler)}
    (hsent : (device.log.drop d.device.log.length).filterMap Output.response = [])
    (hstate : device.controller.state ≠ .execution) (hdoomed : Doomed device.controller) :
    Hopeless (d.proceed device) where
  asked_ne := h.asked_ne
  toDevice_eq := h.toDevice_eq
  arriving_eq := by
    rw [Dialogue.proceed, sentBytes, hsent, List.flatten_nil, List.append_nil]
    exact h.arriving_eq
  state_ne := hstate
  doomed := hdoomed

/-- Nothing gives hope again: the program runs on, so no other can be started, and it sends
its command only once. -/
theorem Hopeless.step (h : Hopeless d) (hsound : Sound d.device) (s : DialogueStep) :
    Hopeless (d.step s) := by
  have hport : d.port = [] := (List.append_eq_nil_iff.mp h.arriving_eq).1
  have hcommander : d.toCommander = [] := (List.append_eq_nil_iff.mp h.arriving_eq).2
  obtain ⟨angle, hasked⟩ := Option.ne_none_iff_exists'.mp h.asked_ne
  cases s with
  | run smcRequestedAngle =>
    rw [Dialogue.step, hasked]
    exact h
  | deviceReceives available =>
    have hsame : d.step (.deviceReceives available) = d := by
      rw [Dialogue.step_deviceReceives hsound, h.toDevice_eq, List.take_nil, List.drop_nil]
      exact congrArg (fun toDevice => { d with toDevice }) h.toDevice_eq.symm
    rw [hsame]
    exact h
  | pinTransition gpio eventMask levelA levelB =>
    have hcontroller := Dialogue.pinTransition_controller hsound gpio eventMask levelA levelB
    have hquiet : Quietly d.device.controller
        (d.device.controller.pinTransition gpio eventMask levelA levelB) := .of_log rfl
    rw [← hcontroller] at hquiet
    refine h.proceed hquiet.sent_eq ?_ ?_
    · change (d.step (.pinTransition gpio eventMask levelA levelB)).device.controller.state ≠ _
      rw [hcontroller]
      exact h.state_ne
    · change Doomed (d.step (.pinTransition gpio eventMask levelA levelB)).device.controller
      rw [hcontroller]
      exact h.doomed.pinTransition gpio eventMask levelA levelB
  | execute =>
    have hcontroller := Dialogue.execute_controller hsound
    obtain ⟨hdoomed, hstate, hsent⟩ := h.doomed.execute hsound.saved h.state_ne
    rw [← hcontroller] at hdoomed hstate hsent
    exact h.proceed hsent hstate hdoomed
  | portReceives =>
    refine ⟨h.asked_ne, h.toDevice_eq, ?_, h.state_ne, h.doomed⟩
    change d.port ++ d.toCommander.take 1 ++ d.toCommander.drop 1 = []
    rw [hport, hcommander]
    rfl
  | read =>
    have hsame : d.step .read = d := Dialogue.read_blocked (by rw [hport]; rfl)
    rw [hsame]
    exact h

/-- A hopeless program never ends. -/
theorem Hopeless.waits (h : Hopeless d) (horderly : Orderly d) : ¬ Ends d := by
  rintro ⟨steps, hends⟩
  have hrun := Machine.run_invariant (P := fun d => Orderly d ∧ Hopeless d) steps ⟨horderly, h⟩
    fun d s hd => ⟨hd.1.step s, hd.2.step hd.1.sound s⟩
  exact hrun.2.asked_ne hends

private theorem Ends.of_step {s : DialogueStep} (h : Ends (d.step s)) : Ends d := by
  obtain ⟨steps, hends⟩ := h
  exact ⟨s :: steps, hends⟩

private theorem Ends.of_run (steps : List DialogueStep)
    (h : Ends (Machine.run Dialogue.step d steps)) :
    Ends d := by
  obtain ⟨more, hends⟩ := h
  refine ⟨steps ++ more, ?_⟩
  rw [Machine.run_append]
  exact hends

private theorem response_ends {angle target : Nat} (htarget : target < 180)
    (hasked : d.asked = some (angle : Int))
    (harriving : d.port ++ d.toCommander = angleFrame .ok (2 * target)) : Ends d := by
  induction hbytes : d.toCommander generalizing d with
  | nil =>
    refine ⟨[.read], ?_⟩
    rw [hbytes, List.append_nil] at harriving
    have hreads := smcReads_angleFrame htarget
    rw [List.flatten_singleton, ← harriving] at hreads
    rw [Machine.run_cons, Machine.run_nil, Dialogue.step, hasked, hreads]
  | cons b rest ih =>
    refine Ends.of_step (s := .portReceives) (ih (d := d.step .portReceives) hasked ?_ ?_)
    · change d.port ++ d.toCommander.take 1 ++ d.toCommander.drop 1 = _
      rw [List.append_assoc, List.take_append_drop]
      exact harriving
    · change d.toCommander.drop 1 = rest
      rw [hbytes]
      rfl

private theorem answered_ends (h : Orderly d) (harriving : d.port ++ d.toCommander ≠ []) :
    Ends d := by
  cases h.phase with
  | answered hangle hasked hat => exact response_ends (by omega) hasked hat.arriving_eq
  | idle _ hat => exact absurd hat.arriving_eq harriving
  | sending _ _ _ _ hat => exact absurd hat.arriving_eq harriving
  | packet _ _ _ hat => exact absurd hat.arriving_eq harriving
  | command _ _ hat => exact absurd hat.arriving_eq harriving
  | executing _ _ hat => exact absurd hat.arriving_eq harriving
  | lost _ _ _ hat => exact absurd hat.arriving_eq harriving

private theorem sending_turn_ends (h : Orderly d) {frame : List UInt8} (hframe : frame ≠ [])
    {added : List Output} (hresponse : added.filterMap Output.response = [frame])
    (hlog : (d.step .execute).device.log = d.device.log ++ added) : Ends d := by
  refine Ends.of_step (s := .execute) (answered_ends h.execute ?_)
  have hsent : (d.step .execute).toCommander = d.toCommander ++ frame := by
    change d.toCommander ++ sentBytes ((d.step .execute).device.log.drop d.device.log.length) = _
    rw [hlog, List.drop_left, sentBytes, hresponse, List.flatten_singleton]
  rw [hsent, ← List.append_assoc]
  exact fun hnil => hframe (List.append_eq_nil_iff.mp hnil).2

private theorem responseFrame_ne (params : UserApplicationStateMachineParams) :
    responseFrame params ≠ [] :=
  List.cons_ne_nil _ _

private theorem turned_ends {n target : Nat} (h : Orderly d) (ht : d.device.controller.tasks = [])
    (happ : d.device.controller.userApplication =
      ⟨.execution, ⟨userApplicationMessagesCmdTypeSetStepperMotorAngle, .ok, target⟩⟩)
    (hposition : d.device.controller.position < 180) (htarget : target < 180)
    (hn : edgesRound d.device.stepperMotor.dirPin d.device.encoder.recentlyEncounteredHomeEvent
      d.device.position target ≤ n) : Ends d := by
  induction n generalizing d with
  | zero => exact absurd hn (Nat.not_le_of_gt (edgesRound_bounds _ _ hposition htarget).1)
  | succ n ih =>
    obtain ⟨gpio, eventMask, levelA, levelB, hedge⟩ : ∃ gpio eventMask levelA levelB,
        countedEdge d.device.controller.stepperMotor.dirPin =
          .pinTransition gpio eventMask levelA levelB := by
      cases d.device.controller.stepperMotor.dirPin <;> exact ⟨_, _, _, _, rfl⟩
    obtain ⟨encoder, hcounted, hnext, hhome, _⟩ :=
      Controller.edge_idle ht (sound_registered h.sound)
    have horderly := h.pinTransition gpio eventMask levelA levelB
    have hcontroller := Dialogue.pinTransition_controller h.sound gpio eventMask levelA levelB
    change _ = d.device.controller.step (.pinTransition gpio eventMask levelA levelB) at hcontroller
    rw [← hedge, hcounted] at hcontroller
    refine Ends.of_step (s := .pinTransition gpio eventMask levelA levelB) ?_
    generalize d.step (.pinTransition gpio eventMask levelA levelB) = turned at horderly hcontroller
    have hexecuted := Dialogue.execute_controller horderly.sound
    rcases Controller.execute_step horderly.sound.saved (congrArg Controller.tasks hcontroller) with
      ⟨_, he⟩ | ⟨hfinish, he⟩
    · exact sending_turn_ends horderly (responseFrame_ne _) rfl
        (congrArg Controller.log (hexecuted.trans he))
    · obtain ⟨hlt, hround⟩ := edgesRound_next d.device.stepperMotor.dirPin
        d.device.encoder.recentlyEncounteredHomeEvent hposition htarget hnext
      have hne : target ≠ encoder.encoderPosition := by
        intro hat
        rw [hcontroller, happ] at hfinish
        exact hfinish ⟨rfl, rfl, .inl hat⟩
      rw [he, hcontroller] at hexecuted
      change edgesRound _ _ d.device.controller.position _ = _ at hround
      change edgesRound _ _ d.device.controller.position _ ≤ _ at hn
      rw [if_neg hne] at hround
      rw [hround] at hn
      refine Ends.of_step (s := .execute) (ih horderly.execute (congrArg Controller.tasks hexecuted)
        ((congrArg Controller.userApplication hexecuted).trans happ) ?_ ?_)
      · rw [hexecuted]
        exact hlt
      · change edgesRound (turned.step .execute).device.controller.stepperMotor.dirPin
          (turned.step .execute).device.controller.encoder.recentlyEncounteredHomeEvent
          (turned.step .execute).device.controller.position target ≤ n
        rw [hexecuted]
        change edgesRound d.device.stepperMotor.dirPin encoder.recentlyEncounteredHomeEvent
          encoder.encoderPosition target ≤ n
        rw [hhome]
        omega

/-- The state tells a command in execution. -/
theorem Orderly.executing (h : Orderly d) (hstate : d.device.controller.state = .execution) :
    ∃ angle, angle ≤ 359 ∧ Stage d.device.controller (.hunting false) [] (some angle) := by
  cases h.phase with
  | executing hangle _ hat => exact ⟨_, hangle, hat.stage⟩
  | idle _ hat => exact absurd hstate (hat.stage.rests rfl)
  | sending _ _ _ _ hat => exact absurd hstate (hat.stage.rests rfl)
  | packet _ _ _ hat => exact absurd hstate (hat.stage.rests rfl)
  | command _ _ hat => exact absurd hstate (hat.stage.rests rfl)
  | answered _ _ hat => exact absurd hstate (hat.stage.rests rfl)
  | lost _ _ _ hat => exact absurd hstate (hat.stage.rests rfl)

private theorem step_device (h : Sound d.device) (s : DialogueStep) :
    ∃ inputs, (d.step s).device = Machine.run Firmware.step d.device inputs := by
  cases s with
  | run smcRequestedAngle =>
    refine ⟨[], ?_⟩
    rw [Dialogue.step]
    split <;> rfl
  | deviceReceives available =>
    rw [Dialogue.step_deviceReceives h]
    exact ⟨_, rfl⟩
  | pinTransition gpio eventMask levelA levelB =>
    exact ⟨[.pinTransition gpio eventMask levelA levelB], rfl⟩
  | execute => exact ⟨[.execute], rfl⟩
  | portReceives => exact ⟨[], rfl⟩
  | read =>
    refine ⟨[], ?_⟩
    rw [Dialogue.step]
    split <;> rfl

structure Steady (d : Dialogue) : Prop where
  orderly : Orderly d
  guided : d.device.controller.Guided

theorem Steady.step (h : Steady d) (s : DialogueStep) : Steady (d.step s) := by
  refine ⟨h.orderly.step s, ?_⟩
  obtain ⟨inputs, hdevice⟩ := step_device h.orderly.sound s
  rw [hdevice, (run_sound h.orderly.sound inputs).2]
  exact Machine.run_invariant inputs h.guided fun _ i hc => Controller.step_guided hc i

private theorem run_steady (steps : List DialogueStep) : Steady
    (Machine.run Dialogue.step .start steps) := by
  refine Machine.run_invariant steps ⟨start_orderly, ?_⟩ fun _ s hd => hd.step s
  change start.controller.Guided
  rw [start_related.2]
  exact Controller.start_guided

private theorem idle_executing_ends {angle : Nat} (h : Steady d) (hangle : angle ≤ 359)
    (hstage : Stage d.device.controller (.hunting false) [] (some angle))
    (ht : d.device.controller.tasks = []) : Ends d :=
  turned_ends h.orderly ht ((hstage.executes angle rfl).trans (executing_commandOf hangle))
    h.guided.position_lt (by omega) (Nat.le_refl _)

/-- A command in execution will be answered. -/
theorem executing_ends {n : Nat} (h : Steady d) (hstate : d.device.controller.state = .execution)
    (hn : weight d.device.controller.tasks ≤ n) : Ends d := by
  obtain ⟨angle, hangle, hstage⟩ := h.orderly.executing hstate
  induction n generalizing d with
  | zero => exact idle_executing_ends h hangle hstage (weight_eq_zero (Nat.le_zero.mp hn))
  | succ n ih =>
    by_cases ht : d.device.controller.tasks = []
    · exact idle_executing_ends h hangle hstage ht
    · have hexecuted := Dialogue.execute_controller h.orderly.sound
      have hless := execute_weight h.orderly.sound.saved ht
      rcases hstage.executeExecuting hangle with ⟨hnext, _⟩ | ⟨_, _, hlog⟩
      · rw [← hexecuted] at hnext hless
        refine Ends.of_step (s := .execute) (ih (h.step .execute) ?_ (by omega) hnext)
        rw [Controller.state, hnext.executes angle rfl]
        rfl
      · rw [← hexecuted] at hlog
        exact sending_turn_ends h.orderly (List.cons_ne_nil _ _) rfl hlog

private theorem request_alone {before after : List Task} {t t' : Task} (ht : isRequest t = true)
    (h : requests (before ++ t :: after) = [t']) :
    requests before = [] ∧ t = t' ∧ requests after = [] := by
  have hcons : requests (t :: after) = t :: requests after := List.filter_cons_of_pos ht
  rw [requests_append, hcons] at h
  cases hbefore : requests before with
  | nil =>
    rw [hbefore, List.nil_append] at h
    obtain ⟨rfl, hafter⟩ := List.cons.inj h
    exact ⟨rfl, rfl, hafter⟩
  | cons x rest =>
    rw [hbefore, List.cons_append] at h
    have hnil := (List.cons.inj h).2
    cases (List.append_eq_nil_iff.mp hnil).2

private theorem Orderly.request (h : Orderly d) {before after : List Task} {t : Task}
    (ht : isRequest t = true) (hsplit : d.device.controller.tasks = before ++ t :: after) :
    requests before = [] ∧ requests after = [] ∧ d.device.controller.state ≠ .execution ∧
      ∃ angle : Nat, angle ≤ 359 ∧
        (t = .postProcessing (postProcessingParams (ipcFormat.packet (commandPayload angle))) ∧
            d.device.controller.ipc.received (commandPayload angle).length = commandPayload angle ∨
          t = .stateMachine ⟨.processCmdRequest, commandOf angle⟩) := by
  have hnone {executed : Option Nat} {r : Receiver}
      (hstage : Stage d.device.controller r [] executed) : False := by
    have heq := hstage.requests_eq
    have hmem : t ∈ requests d.device.controller.tasks := by
      rw [hsplit]
      exact List.mem_filter.mpr ⟨by simp, ht⟩
    rw [heq] at hmem
    cases hmem
  cases h.phase with
  | idle _ hat => exact (hnone hat.stage).elim
  | sending _ _ _ _ hat => exact (hnone hat.stage).elim
  | executing _ _ hat => exact (hnone hat.stage).elim
  | answered _ _ hat => exact (hnone hat.stage).elim
  | lost _ _ _ hat => exact (hnone hat.stage).elim
  | packet hangle _ hbuffer hat =>
    have heq := hat.stage.requests_eq
    rw [hsplit] at heq
    obtain ⟨hbefore, ht', hafter⟩ := request_alone ht heq
    exact ⟨hbefore, hafter, hat.stage.rests rfl, _, hangle, .inl ⟨ht', hbuffer⟩⟩
  | command hangle _ hat =>
    have heq := hat.stage.requests_eq
    rw [hsplit] at heq
    obtain ⟨hbefore, ht', hafter⟩ := request_alone ht heq
    exact ⟨hbefore, hafter, hat.stage.rests rfl, _, hangle, .inr ht'⟩

private theorem turn_before_request (h : Steady d) {x t : Task} {before after : List Task}
    (ht : isRequest t = true) (hsplit : d.device.controller.tasks = x :: before ++ t :: after) :
    (d.step .execute).device.controller.tasks = before ++ t :: after ∧
      ∀ tasks, homed (d.step .execute).device.controller tasks =
        homed d.device.controller (x :: tasks) := by
  obtain ⟨hbefore, _, hstate, _⟩ := h.orderly.request ht hsplit
  obtain ⟨hother, _⟩ := requests_cons hbefore
  rw [Dialogue.execute_controller h.orderly.sound]
  cases x with
  | postProcessing params => cases hother
  | stateMachine eventData =>
    have hturn := execute_turn h.orderly.sound.saved hsplit
    exact ⟨turn_tasks hother hturn, turn_homed hstate hother hturn⟩

/-- A command that will find the application ready is executed. -/
theorem command_ends {before after : List Task} {cmd : UserApplicationMessagesCmdSetStepperMotorAngle}
    (h : Steady d)
    (ht : d.device.controller.tasks = before ++ .stateMachine ⟨.processCmdRequest, cmd⟩ :: after)
    (hhomed : homed d.device.controller before = true) : Ends d := by
  induction before generalizing d with
  | cons x before ih =>
    obtain ⟨htasks, hsame⟩ := turn_before_request h rfl ht
    rw [← hsame] at hhomed
    exact Ends.of_step (s := .execute) (ih (h.step .execute) htasks hhomed)
  | nil =>
    obtain ⟨_, _, hstate, angle, hangle, ⟨heq, _⟩ | heq⟩ := h.orderly.request rfl ht
    · cases heq
    · have hready : d.device.controller.state = .ready := by
        have hne : d.device.controller.state ≠ .calibration :=
          (of_decide_eq_true hhomed).resolve_right nofun
        cases hcase : d.device.controller.state with
        | ready => rfl
        | calibration => exact absurd hcase hne
        | execution => exact absurd hcase hstate
      cases heq
      have haccept : Accepts d.device.controller.userApplication
          ⟨.processCmdRequest, commandOf angle⟩ := ⟨hready, rfl, rfl⟩
      have happ := ((execute_turn h.orderly.sound.saved ht).accepted haccept).1
      rw [← Dialogue.execute_controller h.orderly.sound] at happ
      refine Ends.of_step (s := .execute) (executing_ends (h.step .execute) ?_ (Nat.le_refl _))
      rw [Controller.state, happ]
      rfl

private theorem front_packet_ends {after : List Task}
    {params : IpcReceivedDataPacketPostProcessingParams}
    (h : Steady d) (ht : d.device.controller.tasks = .postProcessing params :: after)
    (hroom : after.length + 1 < schedulerMaxQueueSize)
    (hhomed : homed d.device.controller after = true) : Ends d := by
  have hsplit : d.device.controller.tasks = [] ++ .postProcessing params :: after := ht
  obtain ⟨_, _, _, angle, _, ⟨heq, hbuffer⟩ | heq⟩ := h.orderly.request rfl hsplit
  · cases heq
    have hexecuted := Dialogue.execute_controller h.orderly.sound
    rw [Controller.execute_postProcessing ht, runPostProcessing_eq ht] at hexecuted
    have htasks : (d.step .execute).device.controller.tasks =
        after ++ [.stateMachine ⟨.processCmdRequest, commandOf angle⟩] := by
      have hlength : d.device.controller.tasks.length < schedulerMaxQueueSize := by
        rw [ht]
        exact hroom
      have hstatus : (ipcReceivedDataPacketPostProcessingHandler d.device.controller.ipc
          (postProcessingParams (ipcFormat.packet (commandPayload angle)))).receptionStatus = .ok :=
        congrArg Prod.fst (delivery_received hbuffer)
      have hput := congrArg Controller.tasks hexecuted
      dsimp only at hput
      rw [if_pos ⟨hstatus, hlength⟩, commandTask_received hbuffer] at hput
      exact hput
    refine Ends.of_step (s := .execute) (command_ends (h.step .execute) htasks ?_)
    rw [homed_congr (c := d.device.controller) (by rw [hexecuted]; rfl)]
    exact hhomed
  · cases heq

private theorem home_pulse (h : Steady d)
    (hroom : d.device.controller.tasks.length < schedulerMaxQueueSize) :
    let pulsed := d.step (.pinTransition encoderDrvPinZHome gpioIrqEdgeRise false false)
    pulsed.device.controller.tasks = d.device.controller.tasks ++ [.ofType .homeActivity] ∧
      pulsed.device.controller.state = d.device.controller.state := by
  intro pulsed
  have hcontroller := Dialogue.pinTransition_controller h.orderly.sound encoderDrvPinZHome
    gpioIrqEdgeRise false false
  have hregistered := sound_registered h.orderly.sound
  have hdispatched : dispatchedTask (encoderDrvStepHomePinTransitionsCallback
      d.device.controller.encoder encoderDrvPinZHome gpioIrqEdgeRise false false).2 =
        some (.ofType .homeActivity) := by
    change dispatchedTask d.device.controller.encoder.edgeZ.2 = _
    rw [EncoderDrv.edgeZ, hregistered.1, hregistered.2]
    rfl
  refine ⟨?_, by rw [hcontroller]; rfl⟩
  rw [hcontroller, Controller.pinTransition, hdispatched]
  exact if_pos hroom

/-- A packet with room behind it for its command, and for a home event if one is missing. -/
theorem packet_ends {before after : List Task} {params : IpcReceivedDataPacketPostProcessingParams}
    (h : Steady d) (ht : d.device.controller.tasks = before ++ .postProcessing params :: after)
    (hroom : after.length + 1 + (if homed d.device.controller d.device.controller.tasks then 0
      else 1) < schedulerMaxQueueSize) : Ends d := by
  induction before generalizing d with
  | cons x before ih =>
    obtain ⟨htasks, hsame⟩ := turn_before_request h rfl ht
    refine Ends.of_step (s := .execute) (ih (h.step .execute) htasks ?_)
    rw [htasks, hsame]
    rw [ht] at hroom
    exact hroom
  | nil =>
    rw [List.nil_append] at ht
    rw [ht, homed_cons rfl] at hroom
    cases hhomed : homed d.device.controller after with
    | true =>
      rw [hhomed, if_pos rfl] at hroom
      exact front_packet_ends h ht hroom hhomed
    | false =>
      rw [hhomed] at hroom
      change after.length + 1 + 1 < schedulerMaxQueueSize at hroom
      obtain ⟨hpulsed, _⟩ := home_pulse h (by rw [ht, List.length_cons]; omega)
      rw [ht, List.cons_append] at hpulsed
      refine Ends.of_step (s := .pinTransition encoderDrvPinZHome gpioIrqEdgeRise false false)
        (front_packet_ends (h.step _) hpulsed ?_ (decide_eq_true (.inr ?_)))
      · rw [List.length_append]
        exact hroom
      · rw [List.any_append, List.any_cons]
        exact Bool.or_true _

private theorem run_executes (h : Steady d) (turns : Nat) :
    let last := Machine.run Dialogue.step d (List.replicate turns .execute)
    Steady last ∧ last.toDevice = d.toDevice ∧
      last.device.controller =
        Machine.run Controller.step d.device.controller (List.replicate turns .execute) := by
  induction turns generalizing d with
  | zero => exact ⟨h, rfl, rfl⟩
  | succ turns ih =>
    obtain ⟨hsteady, htoDevice, hcontroller⟩ := ih (h.step .execute)
    rw [Dialogue.execute_controller h.orderly.sound] at hcontroller
    exact ⟨hsteady, htoDevice, hcontroller⟩

/-- The rest of the command arrives at a device that has nothing pending. -/
theorem arriving_ends (h : Steady d) (ht : d.device.controller.tasks = [])
    (htoDevice : d.toDevice ≠ []) (hhomed : d.device.controller.state ≠ .calibration) : Ends d := by
  cases h.orderly.phase with
  | @sending angle hangle _ taken left hframe hleft hat =>
    obtain rfl : d.toDevice = left := hat.toDevice_eq
    have hstep := Dialogue.step_deviceReceives h.orderly.sound d.toDevice.length
    have hcontroller := (feedBytes_sound h.orderly.sound d.toDevice).2
    rw [Controller.run_bytes, (receive_follows hat.stage.represents d.toDevice).2,
      Receiver.feed_frame_rest (commandPayload_admits angle) hframe hleft] at hcontroller
    have htasks : (d.step (.deviceReceives d.toDevice.length)).device.controller.tasks =
        [] ++ .postProcessing (postProcessingParams (ipcFormat.packet (commandPayload angle))) ::
          [] := by
      rw [hstep, List.take_length]
      dsimp only
      rw [hcontroller]
      change d.device.controller.offerAll [.postProcessing _] = _
      rw [Controller.offerAll, ht]
      rfl
    have hstate : (d.step (.deviceReceives d.toDevice.length)).device.controller.state =
        d.device.controller.state := by
      rw [hstep, List.take_length]
      dsimp only
      rw [hcontroller]
      rfl
    refine Ends.of_step (packet_ends (h.step _) htasks ?_)
    rw [← hstate] at hhomed
    rw [homed_left hhomed]
    decide
  | idle _ hat => exact absurd hat.toDevice_eq htoDevice
  | packet _ _ _ hat => exact absurd hat.toDevice_eq htoDevice
  | command _ _ hat => exact absurd hat.toDevice_eq htoDevice
  | executing _ _ hat => exact absurd hat.toDevice_eq htoDevice
  | answered _ _ hat => exact absurd hat.toDevice_eq htoDevice
  | lost _ _ _ hat => exact absurd hat.toDevice_eq htoDevice

/-- A device that looks for its home position, with nothing pending, is homed first. -/
theorem homing_ends (h : Steady d) (ht : d.device.controller.tasks = [])
    (htoDevice : d.toDevice ≠ []) (hstate : d.device.controller.state = .calibration) : Ends d := by
  refine Ends.of_step (s := .pinTransition encoderDrvPinZHome gpioIrqEdgeRise false false) ?_
  obtain ⟨htasks, hsame⟩ := home_pulse h (by rw [ht]; decide)
  have hpulsed := h.step (.pinTransition encoderDrvPinZHome gpioIrqEdgeRise false false)
  have hkept : (d.step (.pinTransition encoderDrvPinZHome gpioIrqEdgeRise false false)).toDevice =
      d.toDevice := rfl
  rw [ht, List.nil_append] at htasks
  rw [hstate] at hsame
  rw [← hkept] at htoDevice
  generalize d.step (.pinTransition encoderDrvPinZHome gpioIrqEdgeRise false false) = pulsed at *
  have hturn := execute_turn hpulsed.orderly.sound.saved htasks
  rw [← Dialogue.execute_controller hpulsed.orderly.sound] at hturn
  refine Ends.of_step (s := .execute) (arriving_ends (hpulsed.step .execute) ?_ htoDevice ?_)
  · exact turn_tasks rfl hturn
  · generalize (pulsed.step .execute).device.controller = next at hturn
    cases hturn with
    | home => nofun
    | calibrate _ htype => cases htype
    | immediate haccept => cases haccept.2.1
    | anticlockwise haccept => cases haccept.2.1
    | clockwise haccept => cases haccept.2.1
    | finish hfinish => cases hfinish.2.1
    | ignore _ _ hcalibration => rcases hcalibration hsame with htype | htype <;> cases htype

/-- While the command is on its way it is not too late to drain the queue and to home. -/
theorem sending_ends (h : Steady d) (htoDevice : d.toDevice ≠ []) : Ends d := by
  refine Ends.of_run (List.replicate (weight d.device.controller.tasks) .execute) ?_
  obtain ⟨hsteady, hkept, hcontroller⟩ := run_executes h (weight d.device.controller.tasks)
  have hnone := drained h.orderly.sound.saved (Nat.le_refl (weight d.device.controller.tasks))
  rw [← hcontroller] at hnone
  rw [← hkept] at htoDevice
  by_cases hcalibration : (Machine.run Dialogue.step d (List.replicate
      (weight d.device.controller.tasks) .execute)).device.controller.state = .calibration
  · exact homing_ends hsteady hnone htoDevice hcalibration
  · exact arriving_ends hsteady hnone htoDevice hcalibration

private theorem requests_eq_singleton {tasks : List Task} {t : Task} (h : requests tasks = [t]) :
    ∃ before after, tasks = before ++ t :: after ∧ requests before = [] ∧ requests after = [] := by
  obtain ⟨before, after, hsplit, hbefore, _, hafter⟩ := List.filter_eq_cons_iff.mp h
  exact ⟨before, after, hsplit, List.filter_eq_nil_iff.mpr hbefore, hafter⟩

/-- A program that is not hopeless can end. -/
theorem Steady.ends (h : Steady d) (hope : ¬ Hopeless d) : Ends d := by
  cases h.orderly.phase with
  | idle hasked hat => exact ⟨[], hasked⟩
  | sending _ _ _ hleft hat =>
    refine sending_ends h ?_
    rw [hat.toDevice_eq]
    exact hleft
  | packet _ hasked _ hat =>
    obtain ⟨before, after, hsplit, hbefore, hafter⟩ := requests_eq_singleton hat.stage.requests_eq
    refine packet_ends h hsplit ?_
    by_contra hroom
    exact hope ⟨by rw [hasked]; nofun, hat.toDevice_eq, hat.arriving_eq, hat.stage.rests rfl,
      .packet hsplit hbefore hafter (Nat.not_lt.mp hroom)⟩
  | command _ hasked hat =>
    obtain ⟨before, after, hsplit, hbefore, hafter⟩ := requests_eq_singleton hat.stage.requests_eq
    refine command_ends h hsplit ?_
    by_contra hhomed
    exact hope ⟨by rw [hasked]; nofun, hat.toDevice_eq, hat.arriving_eq, hat.stage.rests rfl,
      .command hsplit hbefore hafter (Bool.eq_false_iff.mpr hhomed)⟩
  | @executing angle _ _ hat =>
    refine executing_ends h ?_ (Nat.le_refl _)
    rw [Controller.state, hat.stage.executes angle rfl]
    rfl
  | answered _ _ hat =>
    refine answered_ends h.orderly ?_
    rw [hat.arriving_eq]
    exact List.cons_ne_nil _ _
  | lost _ hasked _ hat =>
    exact absurd ⟨by rw [hasked]; nofun, hat.toDevice_eq, hat.arriving_eq, hat.stage.rests rfl,
      .gone hat.stage.requests_eq⟩ hope

end Waiting

/-- In every state of every dialogue, some continuation ends the running program unless its
command is lost or bound to be. -/
theorem program_ends_iff (steps : List DialogueStep) :
    let d := Machine.run Dialogue.step .start steps
    Ends d ↔ ¬ Hopeless d := by
  intro d
  have h : Steady d := run_steady steps
  exact ⟨fun hends hopeless => hopeless.waits h.orderly hends, h.ends⟩

/-- A command that comes before the home pulse is dropped, and the program waits for ever. -/
example : ¬ Ends (Machine.run Dialogue.step .start
    [.run 90, .deviceReceives 7, .execute, .execute, .execute]) :=
  Hopeless.waits ⟨by decide, by decide, by decide, by decide, .gone (by decide)⟩
    (run_steady _).orderly

end ClosedLoopStepper.Link
