import Mathlib.Algebra.Order.Group.Int
import Mathlib.Algebra.Order.Group.Abs
import ClosedLoopStepper.Foundations.Machine
import ClosedLoopStepper.Encoder.Cycles

/-! The driver on legal quadrature waveforms, where one pin changes at a time and each
rising edge is served at once. The true shaft position is counted in quarter cycles,
anticlockwise positive. -/
namespace ClosedLoopStepper.Encoder
open Foundations
variable {H : Type}

inductive Toggle
  | a | b
  deriving DecidableEq, Repr

/-- The driver, the levels of its two pins and the net quarter cycles of the shaft. -/
structure Shaft (H : Type) where
  driver : EncoderDrv H
  levelA : Bool
  levelB : Bool
  quarters : ℤ

namespace Shaft

/-- Anticlockwise, A leads: it rises while B is low and falls while B is high, and B
changes towards the level of A. -/
def move (s : Shaft H) : Toggle → ℤ
  | .a => if s.levelA = s.levelB then 1 else -1
  | .b => if s.levelA = s.levelB then -1 else 1

/-- A rising edge runs the callback, which reads the level of the other pin. -/
def step (s : Shaft H) : Toggle → Shaft H
  | .a =>
    { s with
      driver := if s.levelA then s.driver else
        (encoderDrvStepHomePinTransitionsCallback s.driver encoderDrvPinAAnticlockwise
          gpioIrqEdgeRise true s.levelB).1
      levelA := !s.levelA
      quarters := s.quarters + s.move .a }
  | .b =>
    { s with
      driver := if s.levelB then s.driver else
        (encoderDrvStepHomePinTransitionsCallback s.driver encoderDrvPinBClockwise
          gpioIrqEdgeRise s.levelA true).1
      levelB := !s.levelB
      quarters := s.quarters + s.move .b }

def start (eventHandlers : EncoderDrvEventHandlers H) (eventHandling : EncoderDrvEventHandling)
    (position : Nat) : Shaft H :=
  ⟨{ encoderDrvInit .initial eventHandlers eventHandling with encoderPosition := position },
    false, false, 0⟩

end Shaft

/-- The rising edges a waveform has shown in excess of the shaft's cycles. An edge pair
is `seenA` after A has risen with B low and until B next rises with A high, and `seenB`
likewise with the pins exchanged. -/
structure Excess where
  levelA : Bool
  levelB : Bool
  seenA : Bool
  seenB : Bool
  count : ℤ
  deriving DecidableEq, Repr

namespace Excess

/-- Up by one: A falls while B is low, or B rises while A is high with no pair open.
Down by one: B rises while A is low, or A rises while B is high with no pair open. -/
def step (x : Excess) : Toggle → Excess
  | .a =>
    match x.levelA, x.levelB with
    | false, false => { x with levelA := true, seenA := true }
    | false, true =>
      { x with levelA := true, seenB := false, count := x.count - if x.seenB then 0 else 1 }
    | true, false => { x with levelA := false, count := x.count + 1 }
    | true, true => { x with levelA := false }
  | .b =>
    match x.levelB, x.levelA with
    | false, false => { x with levelB := true, seenB := true, count := x.count - 1 }
    | false, true =>
      { x with levelB := true, seenA := false, count := x.count + if x.seenA then 0 else 1 }
    | true, _ => { x with levelB := false }

def start : Excess := ⟨false, false, false, false, 0⟩

end Excess

def excess (waveform : List Toggle) : Excess := Machine.run Excess.step .start waveform

/-- The counter is within one cycle of the shaft, counting modulo the resolution. -/
def Tracks (position : Nat) (s : Shaft H) : Prop :=
  ∃ k : ℤ, (s.driver.encoderPosition : ℤ) = (position + k) % 180 ∧ |4 * k - s.quarters| ≤ 4

def lag (levelA levelB : Bool) : ℤ :=
  match levelA, levelB with
  | false, false => 0
  | true, false => 3
  | true, true => 2
  | false, true => 1

/-- The driver's flags mirror the pairs, and its count is the shaft's plus the excess. -/
structure Counted (position : Nat) (s : Shaft H) (x : Excess) : Prop where
  levelA : x.levelA = s.levelA
  levelB : x.levelB = s.levelB
  seenA : s.driver.previousAnticlockwiseStepEventAssertionFailed = !x.seenA
  seenB : s.driver.previousClockwiseStepEventAssertionFailed = !x.seenB
  home : s.driver.recentlyEncounteredHomeEvent = false
  position : ∃ c : ℤ, (s.driver.encoderPosition : ℤ) = (position + c) % 180 ∧
    4 * (c - x.count) - s.quarters = lag s.levelA s.levelB

private theorem start_counted (eventHandlers : EncoderDrvEventHandlers H)
    (eventHandling : EncoderDrvEventHandling) {position : Nat}
    (hp : encoderDrvIsEncoderPositionValid position) :
    Counted position (Shaft.start eventHandlers eventHandling position) .start where
  levelA := rfl
  levelB := rfl
  seenA := rfl
  seenB := rfl
  home := rfl
  position := by
    have hlt := (valid_iff position).mp hp
    refine ⟨0, ?_, rfl⟩
    change (position : ℤ) = _
    omega

section Step
variable {position : Nat} {s : Shaft H} {x : Excess}

/-- The driver moves by `k`, and the shaft and the excess along with it. -/
private theorem Counted.moved (h : Counted position s x) {next : Shaft H} {x' : Excess} (k : ℤ)
    (hlevels : x'.levelA = next.levelA ∧ x'.levelB = next.levelB)
    (hseen : next.driver.previousAnticlockwiseStepEventAssertionFailed = (!x'.seenA) ∧
      next.driver.previousClockwiseStepEventAssertionFailed = !x'.seenB)
    (hhome : next.driver.recentlyEncounteredHomeEvent = false)
    (hmove : ∀ z : ℤ, (s.driver.encoderPosition : ℤ) = z % 180 →
      (next.driver.encoderPosition : ℤ) = (z + k) % 180)
    (hlag : 4 * (k + x.count - x'.count) + s.quarters + lag s.levelA s.levelB =
      next.quarters + lag next.levelA next.levelB) : Counted position next x' := by
  obtain ⟨c, hc, hc'⟩ := h.position
  refine ⟨hlevels.1, hlevels.2, hseen.1, hseen.2, hhome, c + k, ?_, by omega⟩
  rw [← add_assoc]
  exact hmove _ hc

private theorem step_counted (h : Counted position s x) (t : Toggle) :
    Counted position (s.step t) (x.step t) := by
  have hA := h.levelA
  have hB := h.levelB
  have hsA := h.seenA
  have hsB := h.seenB
  have hhome := h.home
  obtain ⟨drv, levelA, levelB, quarters⟩ := s
  obtain ⟨xA, xB, seenA, seenB, count⟩ := x
  dsimp only at hA hB hsA hsB hhome
  subst hA hB
  -- a falling edge runs no callback, and no home pulse is left to swallow a rising one
  have hkeep : ∀ z : ℤ, (drv.encoderPosition : ℤ) = z % 180 →
      (drv.encoderPosition : ℤ) = (z + 0) % 180 := fun z hz => by rwa [add_zero]
  have hcalm : ∀ {d counts missed next}, EncoderDrv.Edge drv d counts missed next →
      next.recentlyEncounteredHomeEvent = false := fun e => by rw [e.home, hhome, Bool.false_and]
  cases t with
  | a =>
    cases xA with
    | true =>
      cases xB <;> refine h.moved 0 ⟨rfl, rfl⟩ ⟨hsA, hsB⟩ hhome hkeep ?_ <;>
        simp [Shaft.step, Excess.step, Shaft.move, lag] <;> omega
    | false =>
      cases xB with
      | false =>
        have e := drv.edge_first .anticlockwise
        refine h.moved 1 ⟨rfl, rfl⟩ ⟨e.missed, (e.other .clockwise (by decide)).trans hsB⟩ (hcalm e)
          (fun z hz => e.moves hhome hz) ?_
        simp [Shaft.step, Excess.step, Shaft.move, lag]
        omega
      | true =>
        have e := drv.edge_second .clockwise
        refine h.moved (if seenB then 0 else -1) ⟨rfl, rfl⟩
          ⟨(e.other .anticlockwise (by decide)).trans hsA, e.missed⟩ (hcalm e) (fun z hz => ?_) ?_
        · have hmoves := e.moves hhome hz
          rw [EncoderDrv.missedFirst, hsB] at hmoves
          cases seenB <;> exact hmoves
        · cases seenB <;> simp [Shaft.step, Excess.step, Shaft.move, lag] <;> omega
  | b =>
    cases xB with
    | true =>
      refine h.moved 0 ⟨rfl, rfl⟩ ⟨hsA, hsB⟩ hhome hkeep ?_
      cases xA with
      | false => simp [Shaft.step, Excess.step, Shaft.move, lag]
      | true =>
        simp [Shaft.step, Excess.step, Shaft.move, lag]
        omega
    | false =>
      cases xA with
      | false =>
        have e := drv.edge_first .clockwise
        refine h.moved (-1) ⟨rfl, rfl⟩
          ⟨(e.other .anticlockwise (by decide)).trans hsA, e.missed⟩ (hcalm e)
          (fun z hz => e.moves hhome hz) ?_
        simp [Shaft.step, Excess.step, Shaft.move, lag]
        omega
      | true =>
        have e := drv.edge_second .anticlockwise
        refine h.moved (if seenA then 0 else 1) ⟨rfl, rfl⟩
          ⟨e.missed, (e.other .clockwise (by decide)).trans hsB⟩ (hcalm e) (fun z hz => ?_) ?_
        · have hmoves := e.moves hhome hz
          rw [EncoderDrv.missedFirst, hsA] at hmoves
          cases seenA <;> exact hmoves
        · cases seenA <;> simp [Shaft.step, Excess.step, Shaft.move, lag] <;> omega

end Step

private theorem lag_range (levelA levelB : Bool) :
    0 ≤ lag levelA levelB ∧ lag levelA levelB ≤ 3 ∧
      (lag levelA levelB = 0 ↔ levelA = false ∧ levelB = false) := by
  cases levelA <;> cases levelB <;> decide

/-- The count strays from the shaft by the excess, so it stays within one cycle exactly
when the excess is zero or minus one, or one with the shaft at the end of a cycle. -/
theorem tracks_iff (eventHandlers : EncoderDrvEventHandlers H)
    (eventHandling : EncoderDrvEventHandling) (position : Nat)
    (hp : encoderDrvIsEncoderPositionValid position) (waveform : List Toggle) :
    let s := Machine.run Shaft.step (.start eventHandlers eventHandling position) waveform
    let x := excess waveform
    Tracks position s ↔
      x.count % 180 = 0 ∨ x.count % 180 = 179 ∨
        x.count % 180 = 1 ∧ x.levelA = false ∧ x.levelB = false := by
  intro s x
  have hcounted : Counted position s x :=
    Machine.run_simulation waveform (start_counted eventHandlers eventHandling hp)
      fun _ _ t h => step_counted h t
  obtain ⟨hA, hB, _, _, _, c, hc, hlag⟩ := hcounted
  obtain ⟨hlow, hhigh, hzero⟩ := lag_range s.levelA s.levelB
  rw [hA, hB, ← hzero]
  constructor
  · rintro ⟨k, hk, habs⟩
    rw [abs_le] at habs
    omega
  · intro hx
    -- the excess reduced to the representative next to zero
    have hpick : ∃ e : ℤ, (e - x.count) % 180 = 0 ∧
        (e = 0 ∨ e = -1 ∨ e = 1 ∧ lag s.levelA s.levelB = 0) := by
      rcases hx with h | h | ⟨h, h0⟩
      · exact ⟨0, by omega, .inl rfl⟩
      · exact ⟨-1, by omega, .inr (.inl rfl)⟩
      · exact ⟨1, by omega, .inr (.inr ⟨rfl, h0⟩)⟩
    obtain ⟨e, he, hcases⟩ := hpick
    refine ⟨c - x.count + e, by omega, ?_⟩
    rw [abs_le]
    omega

/-- Dithering around one edge of A: each of its two rises counts, and the shaft has
moved one quarter forward. -/
theorem dither_counts_twice :
    let s := Machine.run Shaft.step (.start (H := Unit) ⟨none, none⟩ .immediate 0) [.a, .a, .a]
    s.quarters = 1 ∧ s.driver.encoderPosition = 2 ∧ ¬ Tracks 0 s := by
  intro s
  have hq : s.quarters = 1 := by decide
  have hp : s.driver.encoderPosition = 2 := by decide
  refine ⟨hq, hp, ?_⟩
  rintro ⟨k, hk, habs⟩
  rw [hp] at hk
  rw [hq, abs_le] at habs
  omega

/-- Turned back half way through a cycle: one step is counted, within the bound. -/
theorem tracks_turned_back :
    Tracks 179 (Machine.run Shaft.step (.start (H := Unit) ⟨none, none⟩ .immediate 179)
      [.a, .b, .b, .a]) :=
  (tracks_iff ⟨none, none⟩ .immediate 179 (by decide) _).mpr (.inr (.inr (by decide)))

end ClosedLoopStepper.Encoder
