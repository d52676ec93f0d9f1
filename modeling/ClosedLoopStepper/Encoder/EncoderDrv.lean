import Mathlib.Tactic.SplitIfs

/-! The incremental encoder driver: a position kept by rising edges of two pins in
quadrature and reset by a third, with the flags its callback leaves behind. -/
namespace ClosedLoopStepper.Encoder
variable {H : Type}

def encoderDrvPinAAnticlockwise : Nat := 18
def encoderDrvPinBClockwise : Nat := 20
def encoderDrvPinZHome : Nat := 19

/-- The SDK's event mask of a rising edge. -/
def gpioIrqEdgeRise : Nat := 8

def encoderDrvEncoderPositionResolution : Nat := 180
def encoderDrvEncoderPositionLowerBound : Nat := 0
def encoderDrvEncoderPositionHigherBound : Nat := encoderDrvEncoderPositionResolution - 1

def encoderDrvEncoderAngleToPosition (angle : Nat) : Nat :=
  angle * encoderDrvEncoderPositionResolution / 360

def encoderDrvEncoderPositionToAngle (position : Nat) : Nat :=
  position * 360 / encoderDrvEncoderPositionResolution

def encoderDrvIsEncoderPositionValid (position : Nat) : Bool :=
  position ≥ encoderDrvEncoderPositionLowerBound && position ≤ encoderDrvEncoderPositionHigherBound

inductive EncoderDrvOperationStatus
  | ok | invalidPosition | invalidEventHandling
  deriving DecidableEq, Repr

inductive EncoderDrvEventHandling
  | immediate | scheduled
  deriving DecidableEq, Repr

/-- `none` is a NULL handler. -/
structure EncoderDrvEventHandlers (H : Type) where
  stepActivityEventHandler : Option H
  homeActivityEventHandler : Option H
  deriving DecidableEq, Repr

/-- The driver's static variables, those local to the callback included. The position
is a byte. -/
structure EncoderDrv (H : Type) where
  eventHandlers : EncoderDrvEventHandlers H
  eventHandling : EncoderDrvEventHandling
  encoderPosition : Nat
  recentlyEncounteredHomeEvent : Bool
  previousAnticlockwiseStepEventAssertionFailed : Bool
  previousClockwiseStepEventAssertionFailed : Bool
  encoderPositionUpdateNotification : Bool
  deriving DecidableEq, Repr

/-- What a callback asks for: a handler called with (NULL, 0), or put into the
scheduler's queue with them; the queued pointer may be NULL. -/
inductive Dispatch (H : Type)
  | call (handler : H)
  | put (handler : Option H)
  deriving DecidableEq, Repr

def EncoderDrv.initial : EncoderDrv H where
  eventHandlers := ⟨none, none⟩
  eventHandling := .scheduled
  encoderPosition := 0
  recentlyEncounteredHomeEvent := false
  previousAnticlockwiseStepEventAssertionFailed := true
  previousClockwiseStepEventAssertionFailed := true
  encoderPositionUpdateNotification := false

/-- The driver part of the initialisation; an invalid mode cannot be built here. -/
def encoderDrvInit (drv : EncoderDrv H) (eventHandlers : EncoderDrvEventHandlers H)
    (eventHandling : EncoderDrvEventHandling) : EncoderDrv H :=
  { drv with eventHandlers, eventHandling }

def encoderDrvGetEncoderPosition (drv : EncoderDrv H) : Nat := drv.encoderPosition

def encoderDrvSetEncoderPosition (drv : EncoderDrv H) (encoderPosition : Nat) :
    EncoderDrv H × EncoderDrvOperationStatus :=
  if encoderDrvIsEncoderPositionValid encoderPosition then ({ drv with encoderPosition }, .ok)
  else (drv, .invalidPosition)

def encoderDrvIncrementEncoderPosition (position : Nat) : Nat :=
  if position = encoderDrvEncoderPositionHigherBound then encoderDrvEncoderPositionLowerBound
  else (position + 1) % 256

def encoderDrvDecrementEncoderPosition (position : Nat) : Nat :=
  if position = encoderDrvEncoderPositionLowerBound then encoderDrvEncoderPositionHigherBound
  else (position + 255) % 256

namespace EncoderDrv

/-- A step that counts: the first one after a home event only clears its flag. -/
def countStep (drv : EncoderDrv H) (move : Nat → Nat) : EncoderDrv H :=
  { drv with
    encoderPosition :=
      if drv.recentlyEncounteredHomeEvent then drv.encoderPosition else move drv.encoderPosition
    recentlyEncounteredHomeEvent := false
    encoderPositionUpdateNotification := true }

/-- Pin A has risen. With B high the step was already counted at B's edge, unless that
edge was not seen as the first one. -/
def edgeA (drv : EncoderDrv H) (levelB : Bool) : EncoderDrv H :=
  if levelB then
    let drv := if drv.previousClockwiseStepEventAssertionFailed then
      drv.countStep encoderDrvDecrementEncoderPosition else drv
    { drv with previousClockwiseStepEventAssertionFailed := true }
  else
    { drv.countStep encoderDrvIncrementEncoderPosition with
      previousAnticlockwiseStepEventAssertionFailed := false }

def edgeB (drv : EncoderDrv H) (levelA : Bool) : EncoderDrv H :=
  if levelA then
    let drv := if drv.previousAnticlockwiseStepEventAssertionFailed then
      drv.countStep encoderDrvIncrementEncoderPosition else drv
    { drv with previousAnticlockwiseStepEventAssertionFailed := true }
  else
    { drv.countStep encoderDrvDecrementEncoderPosition with
      previousClockwiseStepEventAssertionFailed := false }

/-- The notification flag outlives a callback that finds no step handler. -/
def notifyStep (drv : EncoderDrv H) : EncoderDrv H × Option (Dispatch H) :=
  match drv.eventHandlers.stepActivityEventHandler, drv.encoderPositionUpdateNotification with
  | some handler, true =>
    ({ drv with encoderPositionUpdateNotification := false },
      some (match drv.eventHandling with
        | .immediate => .call handler
        | .scheduled => .put (some handler)))
  | _, _ => (drv, none)

/-- Pin Z has risen. In scheduled mode the source queues the step handler here. -/
def edgeZ (drv : EncoderDrv H) : EncoderDrv H × Option (Dispatch H) :=
  ({ drv with recentlyEncounteredHomeEvent := true, encoderPosition := 0 },
    match drv.eventHandlers.homeActivityEventHandler with
    | some handler =>
      some (match drv.eventHandling with
        | .immediate => .call handler
        | .scheduled => .put drv.eventHandlers.stepActivityEventHandler)
    | none => none)

end EncoderDrv

/-- The levels are those of pins A and B when the callback reads them. -/
def encoderDrvStepHomePinTransitionsCallback (drv : EncoderDrv H) (gpio eventMask : Nat)
    (levelA levelB : Bool) : EncoderDrv H × Option (Dispatch H) :=
  if gpio = encoderDrvPinAAnticlockwise ∨ gpio = encoderDrvPinBClockwise then
    if eventMask = gpioIrqEdgeRise then
      EncoderDrv.notifyStep
        (if gpio = encoderDrvPinAAnticlockwise then drv.edgeA levelB else drv.edgeB levelA)
    else (drv, none)
  else if gpio = encoderDrvPinZHome then
    if eventMask = gpioIrqEdgeRise then drv.edgeZ else (drv, none)
  else (drv, none)

theorem valid_iff (position : Nat) :
    encoderDrvIsEncoderPositionValid position = true ↔ position < 180 := by
  change (decide (0 ≤ position) && decide (position ≤ 179)) = true ↔ _
  rw [Bool.and_eq_true, decide_eq_true_iff, decide_eq_true_iff]
  omega

/-- On valid positions the two moves are successor and predecessor modulo the resolution. -/
theorem increment_eq {position : Nat} (h : position < 180) :
    encoderDrvIncrementEncoderPosition position = (position + 1) % 180 := by
  change (if position = 179 then 0 else (position + 1) % 256) = _
  split_ifs <;> omega

theorem decrement_eq {position : Nat} (h : position < 180) :
    encoderDrvDecrementEncoderPosition position = (position + 179) % 180 := by
  change (if position = 0 then 179 else (position + 255) % 256) = _
  split_ifs <;> omega

/-- The moves of a position that is known modulo the resolution. -/
theorem increment_mod {p : Nat} {z : Int} (h : (p : Int) = z % 180) :
    (encoderDrvIncrementEncoderPosition p : Int) = (z + 1) % 180 := by
  rw [increment_eq (by omega)]
  omega

theorem decrement_mod {p : Nat} {z : Int} (h : (p : Int) = z % 180) :
    (encoderDrvDecrementEncoderPosition p : Int) = (z - 1) % 180 := by
  rw [decrement_eq (by omega)]
  omega

def MovesAtMostOne (before after : Nat) : Prop :=
  after = before ∨ after = (before + 1) % 180 ∨ after = (before + 179) % 180

section Lemmas
variable (drv : EncoderDrv H)

@[simp] theorem notifyStep_position : drv.notifyStep.1.encoderPosition = drv.encoderPosition := by
  unfold EncoderDrv.notifyStep
  split <;> rfl

@[simp] theorem notifyStep_home :
    drv.notifyStep.1.recentlyEncounteredHomeEvent = drv.recentlyEncounteredHomeEvent := by
  unfold EncoderDrv.notifyStep
  split <;> rfl

@[simp] theorem notifyStep_anticlockwise :
    drv.notifyStep.1.previousAnticlockwiseStepEventAssertionFailed =
      drv.previousAnticlockwiseStepEventAssertionFailed := by
  unfold EncoderDrv.notifyStep
  split <;> rfl

@[simp] theorem notifyStep_clockwise :
    drv.notifyStep.1.previousClockwiseStepEventAssertionFailed =
      drv.previousClockwiseStepEventAssertionFailed := by
  unfold EncoderDrv.notifyStep
  split <;> rfl

/-- A rising edge of A runs the step branch for pin A. -/
theorem callback_edgeA (levelA levelB : Bool) :
    encoderDrvStepHomePinTransitionsCallback drv encoderDrvPinAAnticlockwise gpioIrqEdgeRise
      levelA levelB = (drv.edgeA levelB).notifyStep := by
  simp [encoderDrvStepHomePinTransitionsCallback]

theorem callback_edgeB (levelA levelB : Bool) :
    encoderDrvStepHomePinTransitionsCallback drv encoderDrvPinBClockwise gpioIrqEdgeRise
      levelA levelB = (drv.edgeB levelA).notifyStep := by
  simp [encoderDrvStepHomePinTransitionsCallback, encoderDrvPinAAnticlockwise,
    encoderDrvPinBClockwise]

/-- Every callback does one of four things: nothing, or one of the three edges. -/
theorem callback_cases (gpio eventMask : Nat) (levelA levelB : Bool) :
    let next := encoderDrvStepHomePinTransitionsCallback drv gpio eventMask levelA levelB
    next = (drv, none) ∨ next = (drv.edgeA levelB).notifyStep ∨
      next = (drv.edgeB levelA).notifyStep ∨
      (gpio = encoderDrvPinZHome ∧ eventMask = gpioIrqEdgeRise ∧ next = drv.edgeZ) := by
  intro next
  simp only [next, encoderDrvStepHomePinTransitionsCallback]
  split_ifs with hstep hrise hA hz hrise
  · exact .inr (.inl rfl)
  · exact .inr (.inr (.inl rfl))
  · exact .inl rfl
  · exact .inr (.inr (.inr ⟨hz, hrise, rfl⟩))
  · exact .inl rfl
  · exact .inl rfl

private theorem MovesAtMostOne.lt {before after : Nat} (hbefore : before < 180)
    (h : MovesAtMostOne before after) : after < 180 := by
  unfold MovesAtMostOne at h
  omega

private theorem countStep_moves {move : Nat → Nat}
    (h : MovesAtMostOne drv.encoderPosition (move drv.encoderPosition)) :
    MovesAtMostOne drv.encoderPosition (drv.countStep move).encoderPosition := by
  unfold EncoderDrv.countStep
  dsimp only
  split_ifs
  · exact .inl rfl
  · exact h

theorem edgeA_moves (h : drv.encoderPosition < 180) (levelB : Bool) :
    MovesAtMostOne drv.encoderPosition (drv.edgeA levelB).encoderPosition := by
  unfold EncoderDrv.edgeA
  split_ifs
  · exact countStep_moves drv (.inr (.inr (decrement_eq h)))
  · exact .inl rfl
  · exact countStep_moves drv (.inr (.inl (increment_eq h)))

theorem edgeB_moves (h : drv.encoderPosition < 180) (levelA : Bool) :
    MovesAtMostOne drv.encoderPosition (drv.edgeB levelA).encoderPosition := by
  unfold EncoderDrv.edgeB
  split_ifs
  · exact countStep_moves drv (.inr (.inl (increment_eq h)))
  · exact .inl rfl
  · exact countStep_moves drv (.inr (.inr (decrement_eq h)))

/-- Every callback leaves a valid position. -/
theorem callback_position_lt (h : drv.encoderPosition < 180) (gpio eventMask : Nat)
    (levelA levelB : Bool) :
    (encoderDrvStepHomePinTransitionsCallback drv gpio eventMask levelA levelB).1.encoderPosition
      < 180 := by
  rcases callback_cases drv gpio eventMask levelA levelB with he | he | he | ⟨_, _, he⟩
  · rwa [he]
  · rw [he, notifyStep_position]
    exact (edgeA_moves drv h levelB).lt h
  · rw [he, notifyStep_position]
    exact (edgeB_moves drv h levelA).lt h
  · rw [he]
    exact Nat.zero_lt_succ 179

def SameRegistration (drv drv' : EncoderDrv H) : Prop :=
  drv'.eventHandlers = drv.eventHandlers ∧ drv'.eventHandling = drv.eventHandling

theorem edgeA_registration (levelB : Bool) : SameRegistration drv (drv.edgeA levelB) := by
  unfold EncoderDrv.edgeA
  split_ifs <;> exact ⟨rfl, rfl⟩

theorem edgeB_registration (levelA : Bool) : SameRegistration drv (drv.edgeB levelA) := by
  unfold EncoderDrv.edgeB
  split_ifs <;> exact ⟨rfl, rfl⟩

private theorem notifyStep_registration : SameRegistration drv drv.notifyStep.1 := by
  unfold EncoderDrv.notifyStep
  split <;> exact ⟨rfl, rfl⟩

theorem notifyStep_immediate (h : drv.eventHandling = .immediate) :
    drv.notifyStep.2 = none ∨
      drv.notifyStep.2 = drv.eventHandlers.stepActivityEventHandler.map .call := by
  unfold EncoderDrv.notifyStep
  split
  · rename_i hhandler _
    exact .inr (by rw [h, hhandler]; rfl)
  · exact .inl rfl

theorem callback_registration (gpio eventMask : Nat) (levelA levelB : Bool) :
    SameRegistration drv
      (encoderDrvStepHomePinTransitionsCallback drv gpio eventMask levelA levelB).1 := by
  rcases callback_cases drv gpio eventMask levelA levelB with h | h | h | ⟨_, _, h⟩
  · rw [h]
    exact ⟨rfl, rfl⟩
  · have hedge := edgeA_registration drv levelB
    have hnotify := notifyStep_registration (drv.edgeA levelB)
    rw [h]
    exact ⟨hnotify.1.trans hedge.1, hnotify.2.trans hedge.2⟩
  · have hedge := edgeB_registration drv levelA
    have hnotify := notifyStep_registration (drv.edgeB levelA)
    rw [h]
    exact ⟨hnotify.1.trans hedge.1, hnotify.2.trans hedge.2⟩
  · rw [h]
    exact ⟨rfl, rfl⟩

/-- In immediate mode a callback calls the step handler, the home handler or none. -/
theorem callback_immediate (h : drv.eventHandling = .immediate) (gpio eventMask : Nat)
    (levelA levelB : Bool) :
    let next := encoderDrvStepHomePinTransitionsCallback drv gpio eventMask levelA levelB
    next.2 = none ∨ next.2 = drv.eventHandlers.stepActivityEventHandler.map .call ∨
      next.2 = drv.eventHandlers.homeActivityEventHandler.map .call := by
  intro next
  rcases callback_cases drv gpio eventMask levelA levelB with he | he | he | ⟨_, _, he⟩
  · exact .inl (congrArg Prod.snd he)
  · have hedge := edgeA_registration drv levelB
    rcases notifyStep_immediate (drv.edgeA levelB) (hedge.2.trans h) with hn | hn
    · exact .inl ((congrArg Prod.snd he).trans hn)
    · exact .inr (.inl ((congrArg Prod.snd he).trans (hedge.1 ▸ hn)))
  · have hedge := edgeB_registration drv levelA
    rcases notifyStep_immediate (drv.edgeB levelA) (hedge.2.trans h) with hn | hn
    · exact .inl ((congrArg Prod.snd he).trans hn)
    · exact .inr (.inl ((congrArg Prod.snd he).trans (hedge.1 ▸ hn)))
  · refine .inr (.inr ((congrArg Prod.snd he).trans ?_))
    simp only [EncoderDrv.edgeZ, h]
    cases drv.eventHandlers.homeActivityEventHandler <;> rfl

end Lemmas
end ClosedLoopStepper.Encoder
