import ClosedLoopStepper.Encoder.EncoderDrv

/-! Pin interrupts served one after another. What each one announces does not depend on
the mode in which the handlers are to be run, which only decides how it is dispatched. -/
namespace ClosedLoopStepper.Encoder
variable {H : Type}

/-- The pin and the event mask of an interrupt, and the levels while it is served. -/
structure PinInterrupt where
  gpio : Nat
  eventMask : Nat
  levelA : Bool
  levelB : Bool
  deriving DecidableEq, Repr

namespace PinInterrupt

def riseA (levelB : Bool) : PinInterrupt := ⟨encoderDrvPinAAnticlockwise, gpioIrqEdgeRise, true, levelB⟩
def riseB (levelA : Bool) : PinInterrupt := ⟨encoderDrvPinBClockwise, gpioIrqEdgeRise, levelA, true⟩
def riseZ : PinInterrupt := ⟨encoderDrvPinZHome, gpioIrqEdgeRise, false, false⟩

def Home (i : PinInterrupt) : Prop := i.gpio = encoderDrvPinZHome ∧ i.eventMask = gpioIrqEdgeRise

instance (i : PinInterrupt) : Decidable i.Home := inferInstanceAs (Decidable (_ ∧ _))

end PinInterrupt

namespace EncoderDrv

def serve (drv : EncoderDrv H) (i : PinInterrupt) : EncoderDrv H × Option (Dispatch H) :=
  encoderDrvStepHomePinTransitionsCallback drv i.gpio i.eventMask i.levelA i.levelB

def serveAll : EncoderDrv H → List PinInterrupt → EncoderDrv H × List (Dispatch H)
  | drv, [] => (drv, [])
  | drv, i :: rest =>
    let next := drv.serve i
    let last := serveAll next.1 rest
    (last.1, next.2.toList ++ last.2)

variable (drv : EncoderDrv H)

@[simp] theorem serveAll_nil : drv.serveAll [] = (drv, []) := rfl

@[simp] theorem serveAll_cons (i : PinInterrupt) (rest : List PinInterrupt) :
    drv.serveAll (i :: rest) =
      (((drv.serve i).1.serveAll rest).1,
        (drv.serve i).2.toList ++ ((drv.serve i).1.serveAll rest).2) := rfl

theorem serveAll_append (a b : List PinInterrupt) :
    drv.serveAll (a ++ b) =
      (((drv.serveAll a).1.serveAll b).1, (drv.serveAll a).2 ++ ((drv.serveAll a).1.serveAll b).2) := by
  induction a generalizing drv with
  | nil => rfl
  | cons i rest ih =>
    rw [List.cons_append, serveAll_cons, serveAll_cons, ih, List.append_assoc]

theorem serve_riseA (levelB : Bool) :
    drv.serve (.riseA levelB) = (drv.edgeA levelB).notifyStep := callback_edgeA drv true levelB

theorem serve_riseB (levelA : Bool) :
    drv.serve (.riseB levelA) = (drv.edgeB levelA).notifyStep := callback_edgeB drv levelA true

theorem serve_riseZ : drv.serve .riseZ = drv.edgeZ := by
  simp [serve, PinInterrupt.riseZ, encoderDrvStepHomePinTransitionsCallback,
    encoderDrvPinAAnticlockwise, encoderDrvPinBClockwise, encoderDrvPinZHome]

theorem serveAll_registration (interrupts : List PinInterrupt) :
    SameRegistration drv (drv.serveAll interrupts).1 := by
  induction interrupts generalizing drv with
  | nil => exact ⟨rfl, rfl⟩
  | cons i rest ih =>
    have hfirst : SameRegistration drv (drv.serve i).1 := callback_registration drv _ _ _ _
    have hrest := ih (drv.serve i).1
    exact ⟨hrest.1.trans hfirst.1, hrest.2.trans hfirst.2⟩

def runs (handler : H) : Dispatch H :=
  match drv.eventHandling with
  | .immediate => .call handler
  | .scheduled => .put (some handler)

/-- With a step handler, each counted step is announced at once and no other edge is. -/
theorem notifyStep_registered {handler : H}
    (h : drv.eventHandlers.stepActivityEventHandler = some handler) :
    drv.notifyStep = ({ drv with encoderPositionUpdateNotification := false },
      if drv.encoderPositionUpdateNotification then some (drv.runs handler) else none) := by
  obtain ⟨⟨stepHandler, homeHandler⟩, _, _, _, _, _, notification⟩ := drv
  cases h
  cases notification <;> rfl

end EncoderDrv

end ClosedLoopStepper.Encoder
