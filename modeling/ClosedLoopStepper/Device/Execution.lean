import ClosedLoopStepper.Device.Turns

/-! A command in execution. Until it is answered nothing is put out but packets given to
the application; the answer stops the motor and sends the one response. -/
namespace ClosedLoopStepper.Device
open Foundations Scheduler Ipc Encoder StepperMotor Application

def Output.isReceived : Output → Bool
  | .received .. => true
  | _ => false

namespace Controller

/-- The command of an earlier state is still in execution. -/
structure StillExecuting (c last : Controller) : Prop where
  state_eq : last.state = .execution
  params_eq : last.params = c.params
  motor_eq : last.stepperMotor = c.stepperMotor
  log_eq : ∃ quiet, quiet.all Output.isReceived = true ∧ last.log = c.log ++ quiet

def answer (c : Controller) : List Output := [.drive .stop, .transmitted (responseFrame c.params)]

/-- The command of an earlier state has been answered. -/
def Answered (c last : Controller) : Prop :=
  ∃ quiet later, quiet.all Output.isReceived = true ∧
    last.log = c.log ++ (quiet ++ (c.answer ++ later))

variable {c last : Controller}

theorem StillExecuting.refl (h : c.state = .execution) : c.StillExecuting c :=
  ⟨h, rfl, rfl, [], rfl, (List.append_nil _).symm⟩

theorem StillExecuting.trans {next : Controller} (h : c.StillExecuting last)
    (h' : last.StillExecuting next) : c.StillExecuting next := by
  obtain ⟨quiet, hquiet, hlog⟩ := h.log_eq
  obtain ⟨quiet', hquiet', hlog'⟩ := h'.log_eq
  refine ⟨h'.state_eq, h'.params_eq.trans h.params_eq, h'.motor_eq.trans h.motor_eq,
    quiet ++ quiet', ?_, ?_⟩
  · rw [List.all_append, hquiet, hquiet']
    rfl
  · rw [hlog', hlog, List.append_assoc]

theorem StillExecuting.answered {next : Controller} (h : c.StillExecuting last)
    (h' : last.Answered next) : c.Answered next := by
  obtain ⟨quiet, hquiet, hlog⟩ := h.log_eq
  obtain ⟨quiet', later, hquiet', hlog'⟩ := h'
  refine ⟨quiet ++ quiet', later, ?_, ?_⟩
  · rw [List.all_append, hquiet, hquiet']
    rfl
  · rw [hlog', hlog, answer, h.params_eq, List.append_assoc, List.append_assoc]
    rfl

/-- No output of an answer is among packets given to the application. -/
theorem not_mem_received {quiet : List Output} (h : quiet.all Output.isReceived = true)
    {output : Output} (ho : output.isReceived = false) : output ∉ quiet := fun hmem =>
  Bool.false_ne_true (ho.symm.trans (List.all_eq_true.mp h output hmem))

theorem StillExecuting.not_answered (h : c.StillExecuting last) : ¬ c.Answered last := by
  rintro ⟨quiet, later, _, hlog⟩
  obtain ⟨quiet', hquiet', hlog'⟩ := h.log_eq
  have heq := List.append_cancel_left (hlog'.symm.trans hlog)
  refine not_mem_received hquiet' (rfl : (Output.drive .stop).isReceived = false) ?_
  rw [heq]
  simp [answer]

private theorem log_step (i : Input) : c.log <+: (c.step i).log := by
  cases i with
  | receivedByte b => exact List.prefix_refl _
  | pinTransition gpio eventMask levelA levelB => exact List.prefix_refl _
  | execute =>
    change c.log <+: c.execute.log
    unfold execute
    split
    · exact List.prefix_refl _
    · exact List.prefix_append _ _
    · exact List.prefix_append _ _

theorem Answered.step (h : c.Answered last) (i : Input) : c.Answered (last.step i) := by
  obtain ⟨quiet, later, hquiet, hlog⟩ := h
  obtain ⟨more, hmore⟩ := last.log_step i
  refine ⟨quiet, later ++ more, hquiet, ?_⟩
  rw [← hmore, hlog]
  simp only [List.append_assoc]

private theorem runPostProcessing_executing {params : IpcReceivedDataPacketPostProcessingParams}
    {rest : List Task} (h : c.state = .execution) (ht : c.tasks = .postProcessing params :: rest) :
    c.StillExecuting (c.runPostProcessing params) := by
  rw [runPostProcessing_eq ht]
  exact ⟨h, rfl, rfl, [_], rfl, rfl⟩

/-- A state machine task finishes the command or changes nothing. -/
theorem turn_executing {eventData : UserApplicationStateMachineEventData} {rest : List Task}
    (h : c.state = .execution) (hturn : Turn c eventData rest last) :
    last.tasks = rest ∧
      (c.StillExecuting last ∧ ¬ Finishes c.userApplication c.position eventData ∨
        Finishes c.userApplication c.position eventData ∧ c.Answered last) := by
  have haccept : ¬ Accepts c.userApplication eventData := fun ha => by cases h.symm.trans ha.1
  cases hturn with
  | calibrate hstate => cases h.symm.trans hstate
  | home hstate => cases h.symm.trans hstate
  | immediate ha => exact absurd ha haccept
  | anticlockwise ha => exact absurd ha haccept
  | clockwise ha => exact absurd ha haccept
  | finish hfinish => exact ⟨rfl, .inr ⟨hfinish, [], [], rfl, rfl⟩⟩
  | ignore _ hfinish =>
    exact ⟨rfl, .inl ⟨⟨h, rfl, rfl, [], rfl, (List.append_nil _).symm⟩, hfinish⟩⟩

private theorem step_executing (hsaved : c.Saved) (h : c.state = .execution) (i : Input) :
    c.StillExecuting (c.step i) ∨ c.Answered (c.step i) := by
  cases i with
  | receivedByte b => exact .inl ⟨h, rfl, rfl, [], rfl, (List.append_nil _).symm⟩
  | pinTransition gpio eventMask levelA levelB =>
    exact .inl ⟨h, rfl, rfl, [], rfl, (List.append_nil _).symm⟩
  | execute =>
    change c.StillExecuting c.execute ∨ c.Answered c.execute
    rcases execute_cases hsaved with ⟨_, he⟩ | ⟨params, rest, ht, he⟩ | ⟨eventData, rest, _, hturn⟩
    · rw [he]
      exact .inl (.refl h)
    · rw [he]
      exact .inl (runPostProcessing_executing h ht)
    · rcases (turn_executing h hturn).2 with hstill | hanswered
      · exact .inl hstill.1
      · exact .inr hanswered.2

/-- In any run the command is in execution until its answer, with its own parameters. -/
theorem run_executing (hsaved : c.Saved) (h : c.state = .execution) (inputs : List Input) :
    c.StillExecuting (Machine.run step c inputs) ∨ c.Answered (Machine.run step c inputs) := by
  have hrun : (Machine.run step c inputs).Saved ∧
      (c.StillExecuting (Machine.run step c inputs) ∨ c.Answered (Machine.run step c inputs)) := by
    refine Machine.run_invariant (P := fun last =>
      last.Saved ∧ (c.StillExecuting last ∨ c.Answered last)) inputs ⟨hsaved, .inl (.refl h)⟩ ?_
    rintro last i ⟨hlast, hstill | hanswered⟩
    · refine ⟨step_saved hlast i, ?_⟩
      rcases step_executing hlast hstill.state_eq i with hnext | hnext
      · exact .inl (hstill.trans hnext)
      · exact .inr (hstill.answered hnext)
    · exact ⟨step_saved hlast i, .inr (hanswered.step i)⟩
  exact hrun.2

/-- A turn on a task that prompts nothing leaves the command in execution, and adds at
most a command. -/
theorem execute_unprompted {t : Task} {rest : List Task} (hsaved : c.Saved)
    (h : c.state = .execution) (ht : c.tasks = t :: rest) (hp : t.prompts = false) :
    c.StillExecuting c.execute ∧ ∃ added, added.any Task.prompts = false ∧
      c.execute.tasks = rest ++ added := by
  rcases execute_cases hsaved with ⟨hnil, _⟩ | ⟨params, rest', ht', he⟩ | ⟨eventData, rest', ht', hturn⟩
  · cases ht.symm.trans hnil
  · cases ht.symm.trans ht'
    rw [he]
    refine ⟨runPostProcessing_executing h ht, ?_⟩
    rw [runPostProcessing_eq ht]
    refine ⟨_, ?_, rfl⟩
    split <;> rfl
  · cases ht.symm.trans ht'
    obtain ⟨htasks, ⟨hstill, _⟩ | ⟨hfinish, _⟩⟩ := turn_executing h hturn
    · exact ⟨hstill, [], rfl, by rw [htasks, List.append_nil]⟩
    · exact absurd (hfinish.2.1.symm.trans hp) (by decide)

/-- A refused command is answered once the loop gets to the first prompting task. -/
theorem refused_answered {front back : List Task} {p : Task} (hsaved : c.Saved)
    (h : c.state = .execution) (hrefused : c.params.respStatus ≠ .ok) (hp : p.prompts = true)
    (hfront : front.any Task.prompts = false) (ht : c.tasks = front ++ p :: back) :
    ∃ turns, c.Answered (Machine.run step c (List.replicate turns .execute)) := by
  induction front generalizing c back with
  | nil =>
    rcases execute_cases hsaved with ⟨hnil, _⟩ | ⟨params, rest, ht', _⟩ | ⟨eventData, rest, ht', hturn⟩
    · cases ht.symm.trans hnil
    · cases ht.symm.trans ht'
      cases hp
    · cases ht.symm.trans ht'
      have hfinish : Finishes c.userApplication c.position eventData := ⟨h, hp, .inr hrefused⟩
      obtain ⟨_, ⟨_, hnot⟩ | ⟨_, hanswered⟩⟩ := turn_executing h hturn
      · exact absurd hfinish hnot
      · exact ⟨1, hanswered⟩
  | cons t front ih =>
    rw [List.any_cons, Bool.or_eq_false_iff] at hfront
    rw [List.cons_append] at ht
    obtain ⟨hstill, added, _, htasks⟩ := execute_unprompted hsaved h ht hfront.1
    rw [List.append_assoc, List.cons_append] at htasks
    have hstatus : c.execute.params.respStatus ≠ .ok := by
      rw [hstill.params_eq]
      exact hrefused
    obtain ⟨turns, hanswered⟩ := ih (step_saved hsaved .execute) hstill.state_eq hstatus
      hfront.2 htasks
    exact ⟨turns + 1, hstill.answered hanswered⟩

/-- With nothing pending that prompts, the loop alone never answers. -/
theorem unprompted_unanswered (hsaved : c.Saved) (h : c.state = .execution)
    (hnone : c.tasks.any Task.prompts = false) (turns : Nat) :
    c.StillExecuting (Machine.run step c (List.replicate turns .execute)) := by
  induction turns generalizing c with
  | zero => exact .refl h
  | succ turns ih =>
    cases ht : c.tasks with
    | nil =>
      have he : c.step .execute = c := execute_idle ht
      rw [List.replicate_succ, Machine.run_cons, he]
      exact ih hsaved h hnone
    | cons t rest =>
      rw [ht, List.any_cons, Bool.or_eq_false_iff] at hnone
      obtain ⟨hstill, added, hadded, htasks⟩ := execute_unprompted hsaved h ht hnone.1
      refine hstill.trans (ih (step_saved hsaved .execute) hstill.state_eq ?_)
      rw [htasks, List.any_append, hnone.2, hadded]
      rfl

end Controller
end ClosedLoopStepper.Device
