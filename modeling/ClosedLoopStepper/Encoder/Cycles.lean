import Mathlib.Data.List.Count
import ClosedLoopStepper.Encoder.Service

/-! Whole quadrature cycles, from both pins low to both pins low. A cycle whose two edges
are served in time counts once in its direction; one whose edges are both served late
counts nothing, and the first one after a home pulse is swallowed. -/
namespace ClosedLoopStepper.Encoder
variable {H : Type}

inductive Direction
  | anticlockwise | clockwise
  deriving DecidableEq, Repr

namespace Direction

def cycle : Direction → List PinInterrupt
  | anticlockwise => [.riseA false, .riseB true]
  | clockwise => [.riseB false, .riseA true]

def first : Direction → PinInterrupt
  | anticlockwise => .riseA false
  | clockwise => .riseB false

def second : Direction → PinInterrupt
  | anticlockwise => .riseB true
  | clockwise => .riseA true

private theorem cycle_eq (d : Direction) : d.cycle = [d.first, d.second] := by cases d <;> rfl

def move : Direction → Nat → Nat
  | anticlockwise => encoderDrvIncrementEncoderPosition
  | clockwise => encoderDrvDecrementEncoderPosition

def sign : Direction → Int
  | anticlockwise => 1
  | clockwise => -1

private theorem move_mod (d : Direction) {p : Nat} {z : Int} (h : (p : Int) = z % 180) :
    (d.move p : Int) = (z + d.sign) % 180 := by
  cases d with
  | anticlockwise => exact increment_mod h
  | clockwise => exact decrement_mod h

end Direction

def net : List Direction → Int
  | [] => 0
  | d :: rest => d.sign + net rest

private theorem net_cons (d : Direction) (rest : List Direction) :
    net (d :: rest) = d.sign + net rest := rfl

private theorem net_eq_count (cycles : List Direction) :
    net cycles = cycles.count .anticlockwise - cycles.count .clockwise := by
  induction cycles with
  | nil => rfl
  | cons d rest ih =>
    rw [net_cons, ih]
    cases d with
    | anticlockwise =>
      rw [List.count_cons_self, List.count_cons_of_ne (by decide)]
      simp only [Direction.sign]
      omega
    | clockwise =>
      rw [List.count_cons_self, List.count_cons_of_ne (by decide)]
      simp only [Direction.sign]
      omega

namespace EncoderDrv
variable {drv : EncoderDrv H}

/-- The first edge of the cycle begun in this direction has not been seen. -/
def missedFirst (drv : EncoderDrv H) : Direction → Bool
  | .anticlockwise => drv.previousAnticlockwiseStepEventAssertionFailed
  | .clockwise => drv.previousClockwiseStepEventAssertionFailed

/-- What an edge of a cycle does to the driver, by whether it counts and what it leaves in the
flag of its direction. -/
structure Edge (drv : EncoderDrv H) (d : Direction) (counts missed : Bool) (next : EncoderDrv H) :
    Prop where
  position : next.encoderPosition =
    if counts then
      if drv.recentlyEncounteredHomeEvent then drv.encoderPosition else d.move drv.encoderPosition
    else drv.encoderPosition
  home : next.recentlyEncounteredHomeEvent = (drv.recentlyEncounteredHomeEvent && !counts)
  missed : next.missedFirst d = missed
  other : ∀ d' ≠ d, next.missedFirst d' = drv.missedFirst d'

theorem Edge.moves {d : Direction} {counts missed : Bool} {next : EncoderDrv H}
    (h : Edge drv d counts missed next) (hhome : drv.recentlyEncounteredHomeEvent = false) {z : Int}
    (hp : (drv.encoderPosition : Int) = z % 180) :
    (next.encoderPosition : Int) = (z + if counts then d.sign else 0) % 180 := by
  rw [h.position]
  cases counts with
  | false => simpa using hp
  | true =>
    rw [if_pos rfl, hhome]
    exact d.move_mod hp

/-- The first edge of a cycle counts and is seen. -/
theorem edge_first (drv : EncoderDrv H) (d : Direction) :
    Edge drv d true false (drv.serve d.first).1 := by
  have hserve : (drv.serve d.first).1 = (match d with
      | .anticlockwise => drv.edgeA false
      | .clockwise => drv.edgeB false).notifyStep.1 := by
    cases d with
    | anticlockwise => rw [Direction.first, serve_riseA]
    | clockwise => rw [Direction.first, serve_riseB]
  rw [hserve]
  refine ⟨?_, ?_, ?_, fun d' hd => ?_⟩
  · cases d <;> cases hhome : drv.recentlyEncounteredHomeEvent <;>
      simp [edgeA, edgeB, countStep, Direction.move, hhome]
  · cases d <;> simp [edgeA, edgeB, countStep]
  · cases d <;> simp [edgeA, edgeB, missedFirst]
  · cases d <;> cases d' <;> first | exact absurd rfl hd | simp [edgeA, edgeB, countStep, missedFirst]

/-- The second edge counts only where the first one was missed. -/
theorem edge_second (drv : EncoderDrv H) (d : Direction) :
    Edge drv d (drv.missedFirst d) true (drv.serve d.second).1 := by
  have hserve : (drv.serve d.second).1 = (match d with
      | .anticlockwise => drv.edgeB true
      | .clockwise => drv.edgeA true).notifyStep.1 := by
    cases d with
    | anticlockwise => rw [Direction.second, serve_riseB]
    | clockwise => rw [Direction.second, serve_riseA]
  rw [hserve]
  have hmissed : drv.missedFirst d = true ∨ drv.missedFirst d = false := by simp
  refine ⟨?_, ?_, ?_, fun d' hd => ?_⟩
  · cases d <;> cases hhome : drv.recentlyEncounteredHomeEvent <;>
      rcases hmissed with h | h <;> simp_all [edgeA, edgeB, countStep, Direction.move, missedFirst]
  · cases d <;> rcases hmissed with h | h <;> simp_all [edgeA, edgeB, countStep, missedFirst]
  · cases d <;> simp [edgeA, edgeB, missedFirst]
  · cases d <;> cases d' <;>
      first | exact absurd rfl hd | rcases hmissed with h | h <;>
        simp_all [edgeA, edgeB, countStep, missedFirst]

/-- What a whole cycle does to the driver: the first edge counts unless a home pulse came
just before, and leaves the flag by which the second edge does not count. -/
structure Cycled (drv : EncoderDrv H) (d : Direction) (next : EncoderDrv H) : Prop where
  position : next.encoderPosition =
    if drv.recentlyEncounteredHomeEvent then drv.encoderPosition else d.move drv.encoderPosition
  home : next.recentlyEncounteredHomeEvent = false
  registration : SameRegistration drv next
  anticlockwise : drv.previousAnticlockwiseStepEventAssertionFailed = true →
    next.previousAnticlockwiseStepEventAssertionFailed = true
  clockwise : drv.previousClockwiseStepEventAssertionFailed = true →
    next.previousClockwiseStepEventAssertionFailed = true

private theorem serveAll_cycle (drv : EncoderDrv H) (d : Direction) :
    Cycled drv d (drv.serveAll d.cycle).1 := by
  have hregistration := drv.serveAll_registration d.cycle
  have hfirst := edge_first drv d
  have hsecond := edge_second (drv.serve d.first).1 d
  rw [d.cycle_eq] at hregistration ⊢
  simp only [serveAll_cons, serveAll_nil] at hregistration ⊢
  rw [hfirst.missed] at hsecond
  have hmissed (d' : Direction) (h : drv.missedFirst d' = true) :
      ((drv.serve d.first).1.serve d.second).1.missedFirst d' = true := by
    by_cases hd : d' = d
    · rw [hd]
      exact hsecond.missed
    · rw [hsecond.other d' hd, hfirst.other d' hd, h]
  refine ⟨?_, ?_, hregistration, hmissed .anticlockwise, hmissed .clockwise⟩
  · rw [hsecond.position, hfirst.position]
    rfl
  · rw [hsecond.home, hfirst.home]
    simp

private theorem serveAll_cycle_dispatch {handler : H}
    (h : drv.eventHandlers.stepActivityEventHandler = some handler) (d : Direction) :
    (drv.serveAll d.cycle).2 = [drv.runs handler] := by
  cases d with
  | anticlockwise =>
    simp only [Direction.cycle, serveAll_cons, serveAll_nil, serve_riseA, serve_riseB]
    have hfirst := notifyStep_registered (drv.edgeA false) h
    have hsecond := notifyStep_registered
      ({ drv.edgeA false with encoderPositionUpdateNotification := false }.edgeB true) h
    simp only [hfirst, hsecond]
    simp [edgeA, edgeB, countStep, runs]
  | clockwise =>
    simp only [Direction.cycle, serveAll_cons, serveAll_nil, serve_riseA, serve_riseB]
    have hfirst := notifyStep_registered (drv.edgeB false) h
    have hsecond := notifyStep_registered
      ({ drv.edgeB false with encoderPositionUpdateNotification := false }.edgeA true) h
    simp only [hfirst, hsecond]
    simp [edgeA, edgeB, countStep, runs]

end EncoderDrv

section Counted
variable {drv : EncoderDrv H}

/-- From a driver that counts, the position moves with every whole cycle. -/
theorem cycles_position (hhome : drv.recentlyEncounteredHomeEvent = false) {z : Int}
    (hp : (drv.encoderPosition : Int) = z % 180) (cycles : List Direction) :
    ((drv.serveAll (cycles.flatMap Direction.cycle)).1.encoderPosition : Int) =
      (z + net cycles) % 180 := by
  induction cycles generalizing drv z with
  | nil => simpa [net] using hp
  | cons d rest ih =>
    have hcycle := EncoderDrv.serveAll_cycle drv d
    have hposition := hcycle.position
    rw [hhome] at hposition
    have hnext : ((drv.serveAll d.cycle).1.encoderPosition : Int) = (z + d.sign) % 180 := by
      rw [hposition]
      exact d.move_mod hp
    rw [List.flatMap_cons, EncoderDrv.serveAll_append, net_cons, ← Int.add_assoc]
    exact ih hcycle.home hnext

private theorem cycles_dispatch {handler : H}
    (h : drv.eventHandlers.stepActivityEventHandler = some handler) (cycles : List Direction) :
    (drv.serveAll (cycles.flatMap Direction.cycle)).2 = cycles.map fun _ => drv.runs handler := by
  induction cycles generalizing drv with
  | nil => rfl
  | cons d rest ih =>
    have hsame := (EncoderDrv.serveAll_cycle drv d).registration
    have hruns : (drv.serveAll d.cycle).1.runs handler = drv.runs handler := by
      rw [EncoderDrv.runs, hsame.2, EncoderDrv.runs]
    rw [List.flatMap_cons, EncoderDrv.serveAll_append, EncoderDrv.serveAll_cycle_dispatch h,
      ih (hsame.1 ▸ h), hruns]
    rfl

/-- Whole cycles in any mix are counted exactly, and the step handler is notified of each
cycle once, whatever the other flags are. -/
theorem cycles_counted (drv : EncoderDrv H) (handler : H)
    (hhandler : drv.eventHandlers.stepActivityEventHandler = some handler)
    (hhome : drv.recentlyEncounteredHomeEvent = false)
    (hposition : encoderDrvIsEncoderPositionValid drv.encoderPosition) (cycles : List Direction) :
    let served := drv.serveAll (cycles.flatMap Direction.cycle)
    (served.1.encoderPosition : Int) = (drv.encoderPosition + cycles.count .anticlockwise -
      cycles.count .clockwise) % 180 ∧
    served.2 = cycles.map fun _ => drv.runs handler := by
  intro served
  have hlt := (valid_iff _).mp hposition
  refine ⟨?_, cycles_dispatch hhandler cycles⟩
  have hmod : (drv.encoderPosition : Int) = (drv.encoderPosition : Int) % 180 := by omega
  rw [Int.add_sub_assoc, ← net_eq_count]
  exact cycles_position hhome hmod cycles

/-- Over the wrap and back, with the flags as a turn back in mid cycle leaves them. -/
theorem cycles_counted_wrapped :
    let drv : EncoderDrv Unit := ⟨⟨some (), none⟩, .immediate, 179, false, false, false, true⟩
    let served := drv.serveAll ([.anticlockwise, .anticlockwise, .clockwise].flatMap Direction.cycle)
    (served.1.encoderPosition : Int) = (179 + 2 - 1) % 180 ∧ served.2 = [.call (), .call (), .call ()] :=
  cycles_counted _ () rfl rfl (by decide) [.anticlockwise, .anticlockwise, .clockwise]

end Counted

/-! Cycles in one direction, with the edges served in time or both too late. -/

/-- In time, or with both callbacks run after both pins have risen, in either order. -/
inductive Timing
  | prompt | lateAFirst | lateBFirst
  deriving DecidableEq, Repr

def Direction.served (d : Direction) : Timing → List PinInterrupt
  | .prompt => d.cycle
  | .lateAFirst => [.riseA true, .riseB true]
  | .lateBFirst => [.riseB true, .riseA true]

def late (timings : List Timing) : Nat := timings.countP (· ≠ .prompt)

section Late
variable {drv : EncoderDrv H}

structure FlagsInitial (drv : EncoderDrv H) : Prop where
  home : drv.recentlyEncounteredHomeEvent = false
  anticlockwise : drv.previousAnticlockwiseStepEventAssertionFailed = true
  clockwise : drv.previousClockwiseStepEventAssertionFailed = true

private theorem prompt_served (h : FlagsInitial drv) {z : Int}
    (hp : (drv.encoderPosition : Int) = z % 180) (d : Direction) :
    FlagsInitial (drv.serveAll (d.served .prompt)).1 ∧
      ((drv.serveAll (d.served .prompt)).1.encoderPosition : Int) = (z + d.sign) % 180 := by
  have hcycle := EncoderDrv.serveAll_cycle drv d
  have hposition := hcycle.position
  rw [h.home] at hposition
  refine ⟨⟨hcycle.home, hcycle.anticlockwise h.anticlockwise, hcycle.clockwise h.clockwise⟩, ?_⟩
  change ((drv.serveAll d.cycle).1.encoderPosition : Int) = _
  rw [hposition]
  exact d.move_mod hp

private theorem late_served (h : FlagsInitial drv) {z : Int}
    (hp : (drv.encoderPosition : Int) = z % 180) (d : Direction) {timing : Timing}
    (hlate : timing ≠ .prompt) :
    FlagsInitial (drv.serveAll (d.served timing)).1 ∧
      ((drv.serveAll (d.served timing)).1.encoderPosition : Int) = z % 180 := by
  -- both edges are taken for second edges, one of each direction
  have hback (d d' : Direction) (hd : d' ≠ d) :
      let last := ((drv.serve d.second).1.serve d'.second).1
      FlagsInitial last ∧ (last.encoderPosition : Int) = z % 180 := by
    have hmissed : ∀ d, drv.missedFirst d = true := by
      intro d
      cases d with
      | anticlockwise => exact h.anticlockwise
      | clockwise => exact h.clockwise
    have hone := drv.edge_second d
    have htwo := (drv.serve d.second).1.edge_second d'
    rw [hmissed d] at hone
    rw [hone.other d' hd, hmissed d'] at htwo
    have hhome : (drv.serve d.second).1.recentlyEncounteredHomeEvent = false := by
      rw [hone.home, h.home, Bool.false_and]
    have hflags : ∀ e, ((drv.serve d.second).1.serve d'.second).1.missedFirst e = true := by
      intro e
      by_cases he : e = d'
      · rw [he]
        exact htwo.missed
      · have hsame : e = d := by cases d <;> cases d' <;> cases e <;> first | rfl | contradiction
        rw [htwo.other e he, hsame]
        exact hone.missed
    refine ⟨⟨by rw [htwo.home, hhome, Bool.false_and], hflags .anticlockwise, hflags .clockwise⟩, ?_⟩
    have hsigns : d.sign + d'.sign = 0 := by
      cases d <;> cases d' <;> first | rfl | contradiction
    have hmoved := htwo.moves hhome (hone.moves h.home hp)
    rwa [if_pos rfl, if_pos rfl, Int.add_assoc, hsigns, Int.add_zero] at hmoved
  cases timing with
  | prompt => exact absurd rfl hlate
  | lateAFirst => exact hback .clockwise .anticlockwise (by decide)
  | lateBFirst => exact hback .anticlockwise .clockwise (by decide)

/-- From the initial flags, only the cycles served in time are counted. -/
theorem served_position (h : FlagsInitial drv) {z : Int}
    (hp : (drv.encoderPosition : Int) = z % 180) (d : Direction) (timings : List Timing) :
    ((drv.serveAll (timings.flatMap d.served)).1.encoderPosition : Int) =
      (z + d.sign * (timings.length - late timings)) % 180 := by
  induction timings generalizing drv z with
  | nil => simpa [late] using hp
  | cons timing rest ih =>
    rw [List.flatMap_cons, EncoderDrv.serveAll_append]
    by_cases hprompt : timing = .prompt
    · subst hprompt
      obtain ⟨hflags, hposition⟩ := prompt_served h hp d
      have hlate : late (.prompt :: rest) = late rest := rfl
      have hcount : d.sign * (((Timing.prompt :: rest).length : Int) - late rest) =
          d.sign + d.sign * (rest.length - late rest) := by
        rw [List.length_cons]
        cases d <;> simp [Direction.sign] <;> omega
      rw [hlate, hcount, ← Int.add_assoc]
      exact ih hflags hposition
    · obtain ⟨hflags, hposition⟩ := late_served h hp d hprompt
      have hlate : late (timing :: rest) = late rest + 1 := by
        simp [late, hprompt]
      have hcount : (((timing :: rest).length : Int) - (late rest + 1 : Nat)) =
          rest.length - late rest := by
        rw [List.length_cons]
        omega
      rw [hlate, hcount]
      exact ih hflags hposition

/-- Cycles in one direction from the initial flags change the position by their number
exactly when the cycles served late are a multiple of the resolution. -/
theorem late_service_counted_iff (drv : EncoderDrv H) (h : FlagsInitial drv)
    (hposition : encoderDrvIsEncoderPositionValid drv.encoderPosition) (d : Direction)
    (timings : List Timing) :
    ((drv.serveAll (timings.flatMap d.served)).1.encoderPosition : Int) =
        (drv.encoderPosition + d.sign * timings.length) % 180 ↔ late timings % 180 = 0 := by
  have hlt := (valid_iff _).mp hposition
  have hmod : (drv.encoderPosition : Int) = (drv.encoderPosition : Int) % 180 := by omega
  rw [served_position h hmod d timings]
  cases d with
  | anticlockwise =>
    simp only [Direction.sign]
    omega
  | clockwise =>
    simp only [Direction.sign]
    omega

/-- Two cycles served in time. -/
theorem late_service_counted_prompt :
    ((EncoderDrv.serveAll (H := Unit) .initial
      ([Timing.prompt, .prompt].flatMap Direction.clockwise.served)).1.encoderPosition : Int) =
        (0 + -1 * 2) % 180 :=
  (late_service_counted_iff (H := Unit) .initial ⟨rfl, rfl, rfl⟩ (by decide) .clockwise
    [.prompt, .prompt]).mpr (by decide)

/-- One cycle served late is lost. -/
theorem late_cycle_lost :
    FlagsInitial (EncoderDrv.initial (H := Unit)) ∧
      ((EncoderDrv.serveAll (H := Unit) .initial
        ([Timing.lateAFirst].flatMap Direction.anticlockwise.served)).1.encoderPosition : Int) ≠
          (0 + 1 * 1) % 180 :=
  ⟨⟨rfl, rfl, rfl⟩, by decide⟩

end Late

/-! Cycles after a home pulse. -/

section Homed

/-- What the counter shows for cycles that follow a home pulse: their net number, less
the first cycle. -/
def homed : List Direction → Int
  | [] => 0
  | _ :: rest => net rest

private theorem homed_position (drv : EncoderDrv H) (cycles : List Direction) :
    ((drv.serveAll (.riseZ :: cycles.flatMap Direction.cycle)).1.encoderPosition : Int) =
      homed cycles % 180 := by
  rw [EncoderDrv.serveAll_cons, EncoderDrv.serve_riseZ]
  cases cycles with
  | nil => rfl
  | cons d rest =>
    have hcycle := EncoderDrv.serveAll_cycle drv.edgeZ.1 d
    have hzero : ((drv.edgeZ.1.serveAll d.cycle).1.encoderPosition : Int) = 0 % 180 := by
      rw [hcycle.position]
      rfl
    have hrest := cycles_position hcycle.home hzero rest
    rw [List.flatMap_cons, EncoderDrv.serveAll_append]
    rw [Int.zero_add] at hrest
    exact hrest

/-- After a home pulse, two paths with the same net number of cycles end in the same
position exactly when they set out in the same direction, or when both are empty. -/
theorem homed_position_eq_iff (drv drv' : EncoderDrv H) (cycles cycles' : List Direction)
    (hnet : net cycles = net cycles') :
    (drv.serveAll (.riseZ :: cycles.flatMap Direction.cycle)).1.encoderPosition =
        (drv'.serveAll (.riseZ :: cycles'.flatMap Direction.cycle)).1.encoderPosition ↔
      cycles.head? = cycles'.head? := by
  rw [← Int.ofNat_inj, homed_position, homed_position]
  cases cycles with
  | nil =>
    cases cycles' with
    | nil => simp
    | cons d' rest' =>
      rw [net_cons] at hnet
      simp only [net] at hnet
      cases d' <;> simp [homed, Direction.sign] at hnet ⊢ <;> omega
  | cons d rest =>
    cases cycles' with
    | nil =>
      rw [net_cons] at hnet
      simp only [net] at hnet
      cases d <;> simp [homed, Direction.sign] at hnet ⊢ <;> omega
    | cons d' rest' =>
      rw [net_cons, net_cons] at hnet
      cases d <;> cases d' <;> simp [homed, Direction.sign] at hnet ⊢ <;> omega

/-- Out and back, setting out in either direction from the home position. -/
theorem homed_positions_differ :
    net [.anticlockwise, .clockwise] = net [.clockwise, .anticlockwise] ∧
      (EncoderDrv.serveAll (H := Unit) .initial
        (.riseZ :: [Direction.anticlockwise, .clockwise].flatMap Direction.cycle)).1.encoderPosition =
          179 ∧
      (EncoderDrv.serveAll (H := Unit) .initial
        (.riseZ :: [Direction.clockwise, .anticlockwise].flatMap Direction.cycle)).1.encoderPosition =
          1 := by
  decide

/-- Two paths that set out anticlockwise and end one cycle on. -/
theorem homed_position_eq_anticlockwise :
    (EncoderDrv.serveAll (H := Unit) .initial
        (.riseZ :: [Direction.anticlockwise].flatMap Direction.cycle)).1.encoderPosition =
      (EncoderDrv.serveAll (H := Unit) .initial (.riseZ ::
        [Direction.anticlockwise, .clockwise, .anticlockwise].flatMap Direction.cycle)).1.encoderPosition :=
  (homed_position_eq_iff (H := Unit) .initial .initial [.anticlockwise]
    [.anticlockwise, .clockwise, .anticlockwise] (by decide)).mpr rfl

end Homed

end ClosedLoopStepper.Encoder
