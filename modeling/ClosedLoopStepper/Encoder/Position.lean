import ClosedLoopStepper.Encoder.Service
import ClosedLoopStepper.Foundations.Machine

/-! The position over whole runs, set by the program in between. The two moves compare the
byte with the bounds only, so what keeps it in range is that it never leaves it. -/
namespace ClosedLoopStepper.Encoder
open Foundations
variable {H : Type}

/-- A pin callback, or the position set from outside; the argument is a byte. -/
inductive Operation
  | callback (i : PinInterrupt)
  | setEncoderPosition (encoderPosition : UInt8)
  deriving DecidableEq, Repr

namespace EncoderDrv

def operate (drv : EncoderDrv H) : Operation → EncoderDrv H
  | .callback i => (drv.serve i).1
  | .setEncoderPosition encoderPosition =>
    (encoderDrvSetEncoderPosition drv encoderPosition.toNat).1

section Moves
variable {drv : EncoderDrv H}

private theorem edgeA_notes {levelB : Bool}
    (h : (drv.edgeA levelB).encoderPosition ≠ drv.encoderPosition) :
    (drv.edgeA levelB).encoderPositionUpdateNotification = true := by
  unfold edgeA at h ⊢
  split_ifs at h ⊢
  · rfl
  · exact absurd rfl h
  · rfl

private theorem edgeB_notes {levelA : Bool}
    (h : (drv.edgeB levelA).encoderPosition ≠ drv.encoderPosition) :
    (drv.edgeB levelA).encoderPositionUpdateNotification = true := by
  unfold edgeB at h ⊢
  split_ifs at h ⊢
  · rfl
  · exact absurd rfl h
  · rfl

private theorem notifyStep_calls {handler : H} (hmode : drv.eventHandling = .immediate)
    (hstep : drv.eventHandlers.stepActivityEventHandler = some handler)
    (hnoted : drv.encoderPositionUpdateNotification = true) :
    drv.notifyStep.2 = some (.call handler) := by
  rw [notifyStep_registered drv hstep]
  simp only [hnoted, if_true]
  rw [runs, hmode]

variable {i : PinInterrupt}

private theorem serve_home (h : i.Home) : (drv.serve i).1.encoderPosition = 0 := by
  obtain ⟨gpio, eventMask, levelA, levelB⟩ := i
  obtain ⟨rfl, rfl⟩ := h
  exact congrArg (fun next => next.1.encoderPosition) drv.serve_riseZ

private theorem serve_cases (h : ¬ i.Home) :
    drv.serve i = (drv, none) ∨ drv.serve i = (drv.edgeA i.levelB).notifyStep ∨
      drv.serve i = (drv.edgeB i.levelA).notifyStep := by
  rcases callback_cases drv i.gpio i.eventMask i.levelA i.levelB with he | he | he | ⟨hz, hrise, _⟩
  · exact Or.inl he
  · exact Or.inr (Or.inl he)
  · exact Or.inr (Or.inr he)
  · exact absurd ⟨hz, hrise⟩ h

private theorem serve_moves (hvalid : drv.encoderPosition < 180) (h : ¬ i.Home) :
    MovesAtMostOne drv.encoderPosition (drv.serve i).1.encoderPosition := by
  rcases serve_cases h with he | he | he
  · rw [he]
    exact Or.inl rfl
  · rw [he, notifyStep_position]
    exact edgeA_moves drv hvalid i.levelB
  · rw [he, notifyStep_position]
    exact edgeB_moves drv hvalid i.levelA

private theorem serve_announces {handler : H} (hmode : drv.eventHandling = .immediate)
    (hstep : drv.eventHandlers.stepActivityEventHandler = some handler) (h : ¬ i.Home)
    (hmoved : (drv.serve i).1.encoderPosition ≠ drv.encoderPosition) :
    (drv.serve i).2 = some (.call handler) := by
  rcases serve_cases h with he | he | he
  · rw [he] at hmoved
    exact absurd rfl hmoved
  · have hedge := edgeA_registration drv i.levelB
    rw [he, notifyStep_position] at hmoved
    rw [he]
    exact notifyStep_calls (hedge.2.trans hmode) (hedge.1 ▸ hstep) (edgeA_notes hmoved)
  · have hedge := edgeB_registration drv i.levelA
    rw [he, notifyStep_position] at hmoved
    rw [he]
    exact notifyStep_calls (hedge.2.trans hmode) (hedge.1 ▸ hstep) (edgeB_notes hmoved)

end Moves

section Operations
variable (drv : EncoderDrv H)

private theorem set_cases (encoderPosition : Nat) :
    encoderDrvSetEncoderPosition drv encoderPosition =
      if encoderPosition < 180 then ({ drv with encoderPosition }, .ok)
      else (drv, .invalidPosition) := by
  unfold encoderDrvSetEncoderPosition
  simp only [valid_iff]

private theorem operate_position_lt (h : drv.encoderPosition < 180) (operation : Operation) :
    (drv.operate operation).encoderPosition < 180 := by
  cases operation with
  | callback i => exact callback_position_lt drv h i.gpio i.eventMask i.levelA i.levelB
  | setEncoderPosition encoderPosition =>
    rw [operate, set_cases]
    split_ifs with hvalid
    · exact hvalid
    · exact h

private theorem operate_registration (operation : Operation) :
    SameRegistration drv (drv.operate operation) := by
  cases operation with
  | callback i => exact callback_registration drv i.gpio i.eventMask i.levelA i.levelB
  | setEncoderPosition encoderPosition =>
    rw [operate, set_cases]
    split_ifs <;> exact ⟨rfl, rfl⟩

end Operations

/-- What every run of operations keeps: a valid position, and what was registered. -/
theorem operations_invariant (drv : EncoderDrv H) (h : drv.encoderPosition < 180)
    (operations : List Operation) :
    (Machine.run operate drv operations).encoderPosition < 180 ∧
      SameRegistration drv (Machine.run operate drv operations) := by
  apply Machine.run_invariant (P := fun last => last.encoderPosition < 180 ∧
    SameRegistration drv last) operations ⟨h, rfl, rfl⟩
  intro last operation ⟨hvalid, hsame⟩
  have hnext := operate_registration last operation
  exact ⟨operate_position_lt last hvalid operation, hnext.1.trans hsame.1, hnext.2.trans hsame.2⟩

end EncoderDrv

/-- After any operations the position is valid. Setting an invalid one changes nothing. The
next callback sets the position to zero at the home pin, and otherwise moves it by one
modulo the resolution if at all; then the step handler is called in it, and nothing else. -/
theorem encoder_positions (eventHandlers : EncoderDrvEventHandlers H)
    (eventHandling : EncoderDrvEventHandling) (operations : List Operation) :
    let drv := Machine.run EncoderDrv.operate
      (encoderDrvInit .initial eventHandlers eventHandling) operations
    drv.encoderPosition < 180 ∧
      (∀ encoderPosition : UInt8, encoderDrvSetEncoderPosition drv encoderPosition.toNat =
        if encoderPosition.toNat < 180 then
          ({ drv with encoderPosition := encoderPosition.toNat }, .ok)
        else (drv, .invalidPosition)) ∧
      ∀ i : PinInterrupt,
        let next := drv.serve i
        (i.Home → next.1.encoderPosition = 0) ∧
          (¬ i.Home → MovesAtMostOne drv.encoderPosition next.1.encoderPosition) ∧
          ∀ handler, eventHandlers.stepActivityEventHandler = some handler →
            eventHandling = .immediate → ¬ i.Home →
            next.1.encoderPosition ≠ drv.encoderPosition → next.2 = some (.call handler) := by
  intro drv
  obtain ⟨hvalid, hhandlers, hhandling⟩ := EncoderDrv.operations_invariant
    (encoderDrvInit .initial eventHandlers eventHandling) (Nat.zero_lt_succ 179) operations
  refine ⟨hvalid, fun encoderPosition => drv.set_cases encoderPosition.toNat, fun i => ?_⟩
  refine ⟨EncoderDrv.serve_home, EncoderDrv.serve_moves hvalid, ?_⟩
  intro handler hstep hmode hother hmoved
  refine EncoderDrv.serve_announces (hhandling.trans hmode) ?_ hother hmoved
  rw [hhandlers]
  exact hstep

end ClosedLoopStepper.Encoder
