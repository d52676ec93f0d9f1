import ClosedLoopStepper.Encoder.Quadrature

/-! The encoder's shaft in quarters of a cycle, anticlockwise positive, with a home mark
once a turn where both pins are low. What the driver counts in one quarter depends on the
phase; along one direction only the first edge of a cycle counts. -/
namespace ClosedLoopStepper.Encoder
variable {H : Type}

def levelA (quarter : Int) : Bool := decide (quarter % 4 = 1 ∨ quarter % 4 = 2)
def levelB (quarter : Int) : Bool := decide (quarter % 4 = 2 ∨ quarter % 4 = 3)

def quartersRound : Int := 4 * encoderDrvEncoderPositionResolution

def risingEdges (before after : Int) : List PinInterrupt :=
  (if levelA before = false ∧ levelA after = true then [.riseA (levelB after)] else []) ++
    if levelB before = false ∧ levelB after = true then [.riseB (levelA after)] else []

/-- The home pulse comes at the mark. -/
def quarterInterrupts (before after : Int) : List PinInterrupt :=
  risingEdges before after ++ if after % quartersRound = 0 then [.riseZ] else []

namespace Direction

def HasRoom (d : Direction) (position : Nat) : Prop :=
  match d with
  | anticlockwise => position < encoderDrvEncoderPositionHigherBound
  | clockwise => encoderDrvEncoderPositionLowerBound < position ∧
      position ≤ encoderDrvEncoderPositionHigherBound

/-- Where the count comes to a position in this direction, in quarters from the mark: the
first edge is at the near end of a cycle. -/
def stopOffset (d : Direction) (position : Nat) : Int :=
  match d with
  | anticlockwise => 4 * position + 1
  | clockwise => 4 * position + 3

def past (d : Direction) (position : Nat) (offset : Int) : Int :=
  d.sign * (offset - d.stopOffset position)

end Direction

section Turn
variable {quarter : Int} (d : Direction)

private theorem levels_phase (quarter k : Int) :
    levelA (quarter + k) = levelA (quarter % 4 + k) ∧
      levelB (quarter + k) = levelB (quarter % 4 + k) := by
  simp only [levelA, levelB, Int.emod_add_emod, and_self]

private theorem risingEdges_phase (quarter k : Int) :
    risingEdges quarter (quarter + k) = risingEdges (quarter % 4) (quarter % 4 + k) := by
  obtain ⟨hA, hB⟩ := levels_phase quarter 0
  obtain ⟨hA', hB'⟩ := levels_phase quarter k
  simp only [Int.add_zero] at hA hB
  rw [risingEdges, hA, hB, hA', hB']
  rfl

/-- From the phase with both pins low a quarter shows the first edge of a cycle, and the next
one shows the second. In the other two the pins fall. -/
private theorem risingEdges_turn :
    risingEdges quarter (quarter + d.sign) =
      if quarter % 4 = 0 then [d.first]
      else if (quarter - d.sign) % 4 = 0 then [d.second] else [] := by
  have hphase : quarter % 4 = 0 ∨ quarter % 4 = 1 ∨ quarter % 4 = 2 ∨ quarter % 4 = 3 := by omega
  rw [risingEdges_phase, ← Int.emod_sub_emod]
  rcases hphase with h | h | h | h <;> rw [h] <;> cases d <;> rfl

private theorem mark_phase (h : (quarter + d.sign) % 4 ≠ 0) :
    ¬ (quarter + d.sign) % quartersRound = 0 := by
  rw [show quartersRound = 720 from rfl]
  omega

theorem quarterInterrupts_first (h : quarter % 4 = 0) :
    quarterInterrupts quarter (quarter + d.sign) = [d.first] := by
  have hphase : (quarter + d.sign) % 4 ≠ 0 := by cases d <;> simp only [Direction.sign] <;> omega
  rw [quarterInterrupts, risingEdges_turn, if_pos h, if_neg (mark_phase d hphase), List.append_nil]

theorem quarterInterrupts_second (h : (quarter - d.sign) % 4 = 0) :
    quarterInterrupts quarter (quarter + d.sign) = [d.second] := by
  have hlow : quarter % 4 ≠ 0 := by cases d <;> simp only [Direction.sign] at h <;> omega
  have hphase : (quarter + d.sign) % 4 ≠ 0 := by
    cases d <;> simp only [Direction.sign] at h ⊢ <;> omega
  rw [quarterInterrupts, risingEdges_turn, if_neg hlow, if_pos h, if_neg (mark_phase d hphase),
    List.append_nil]

theorem quarterInterrupts_falling (hfirst : quarter % 4 ≠ 0) (hsecond : (quarter - d.sign) % 4 ≠ 0) :
    quarterInterrupts quarter (quarter + d.sign) =
      if (quarter + d.sign) % quartersRound = 0 then [.riseZ] else [] := by
  rw [quarterInterrupts, risingEdges_turn, if_neg hfirst, if_neg hsecond, List.nil_append]

/-- A quarter of a turn is one step of a legal waveform. -/
theorem quarter_toggles (s : Shaft H) {quarter : Int} (hA : s.levelA = levelA quarter)
    (hB : s.levelB = levelB quarter) (d : Direction) :
    ∃ t, s.step t = ⟨(s.driver.serveAll (risingEdges quarter (quarter + d.sign))).1,
      levelA (quarter + d.sign), levelB (quarter + d.sign), s.quarters + d.sign⟩ := by
  have hphase : quarter % 4 = 0 ∨ quarter % 4 = 1 ∨ quarter % 4 = 2 ∨ quarter % 4 = 3 := by omega
  obtain ⟨hlevelA, hlevelB⟩ := levels_phase quarter 0
  obtain ⟨hA', hB'⟩ := levels_phase quarter d.sign
  simp only [Int.add_zero] at hlevelA hlevelB
  obtain ⟨driver, _, _, quarters⟩ := s
  subst hA hB
  rw [risingEdges_phase, hlevelA, hlevelB, hA', hB']
  rcases hphase with h | h | h | h <;> rw [h] <;> cases d
  · exact ⟨.a, rfl⟩
  · exact ⟨.b, rfl⟩
  · exact ⟨.b, rfl⟩
  · exact ⟨.a, rfl⟩
  · exact ⟨.a, rfl⟩
  · exact ⟨.b, rfl⟩
  · exact ⟨.b, rfl⟩
  · exact ⟨.a, rfl⟩

end Turn

namespace EncoderDrv

/-- Ready to be driven in this direction, with the shaft this far from the mark: nothing is
left to announce, between the edges of a cycle the first one has been seen, and the shaft is
less than a cycle past the edge that was counted last, or at the mark. -/
structure Geared (drv : EncoderDrv H) (offset : Int) (d : Direction) : Prop where
  announced : drv.encoderPositionUpdateNotification = false
  seen : (offset - d.sign) % 4 = 0 → drv.missedFirst d = false
  past : if drv.recentlyEncounteredHomeEvent then drv.encoderPosition = 0 ∧ offset = 0
    else 0 ≤ d.past drv.encoderPosition offset ∧ d.past drv.encoderPosition offset ≤ 3

section Registered
variable {drv : EncoderDrv H} {handler : H}

/-- With a step handler, every callback leaves nothing to announce. -/
theorem serve_announced (hhandler : drv.eventHandlers.stepActivityEventHandler = some handler)
    (h : drv.encoderPositionUpdateNotification = false) (i : PinInterrupt) :
    (drv.serve i).1.encoderPositionUpdateNotification = false := by
  rcases callback_cases drv i.gpio i.eventMask i.levelA i.levelB with he | he | he | ⟨_, _, he⟩
  · rw [serve, he]
    exact h
  · have hnext : (drv.edgeA i.levelB).eventHandlers.stepActivityEventHandler = some handler := by
      rw [(edgeA_registration drv i.levelB).1, hhandler]
    rw [serve, he, notifyStep_registered _ hnext]
  · have hnext : (drv.edgeB i.levelA).eventHandlers.stepActivityEventHandler = some handler := by
      rw [(edgeB_registration drv i.levelA).1, hhandler]
    rw [serve, he, notifyStep_registered _ hnext]
  · rw [serve, he]
    exact h

/-- An edge in immediate mode calls the step handler or nothing. -/
theorem serve_edge (h : drv.eventHandling = .immediate) (d : Direction) {i : PinInterrupt}
    (hi : i = d.first ∨ i = d.second) :
    (drv.serve i).2 = none ∨
      (drv.serve i).2 = drv.eventHandlers.stepActivityEventHandler.map .call := by
  have hA (levelB : Bool) : (drv.serve (.riseA levelB)).2 = none ∨
      (drv.serve (.riseA levelB)).2 = drv.eventHandlers.stepActivityEventHandler.map .call := by
    have hedge := edgeA_registration drv levelB
    rw [serve_riseA, ← hedge.1]
    exact notifyStep_immediate _ (hedge.2.trans h)
  have hB (levelA : Bool) : (drv.serve (.riseB levelA)).2 = none ∨
      (drv.serve (.riseB levelA)).2 = drv.eventHandlers.stepActivityEventHandler.map .call := by
    have hedge := edgeB_registration drv levelA
    rw [serve_riseB, ← hedge.1]
    exact notifyStep_immediate _ (hedge.2.trans h)
  cases d <;> rcases hi with rfl | rfl
  · exact hA false
  · exact hB true
  · exact hB false
  · exact hA true

/-- The second edge of a cycle whose first was seen neither counts nor announces anything. -/
theorem serve_second (d : Direction) (h : drv.encoderPositionUpdateNotification = false)
    (hseen : drv.missedFirst d = false) :
    (drv.serve d.second).2 = none ∧
      (drv.serve d.second).1.encoderPosition = drv.encoderPosition ∧
      (drv.serve d.second).1.recentlyEncounteredHomeEvent = drv.recentlyEncounteredHomeEvent := by
  have hedge := drv.edge_second d
  rw [hseen] at hedge
  refine ⟨?_, hedge.position, by simpa using hedge.home⟩
  cases d with
  | anticlockwise =>
    change drv.previousAnticlockwiseStepEventAssertionFailed = false at hseen
    rw [Direction.second, serve_riseB]
    simp [edgeB, hseen, notifyStep, h]
  | clockwise =>
    change drv.previousClockwiseStepEventAssertionFailed = false at hseen
    rw [Direction.second, serve_riseA]
    simp [edgeA, hseen, notifyStep, h]

/-- The first edge of a cycle is where the position that it counts belongs, and the shaft can
be turned either way from there. -/
theorem Geared.first {offset : Int} {d : Direction} (h : drv.Geared offset d)
    (hhandler : drv.eventHandlers.stepActivityEventHandler = some handler)
    (hphase : offset % 4 = 0) (hroom : d.HasRoom drv.encoderPosition) :
    let next := (drv.serve d.first).1
    offset + d.sign = d.stopOffset next.encoderPosition ∧
      ∀ d', next.Geared (offset + d.sign) d' := by
  intro next
  have hhigher : encoderDrvEncoderPositionHigherBound = 179 := rfl
  have hlower : encoderDrvEncoderPositionLowerBound = 0 := rfl
  have hstop : offset + d.sign = d.stopOffset next.encoderPosition := by
    have hposition : next.encoderPosition = _ := (drv.edge_first d).position
    have hpast := h.past
    rw [hposition, if_pos rfl]
    cases d with
    | anticlockwise =>
      simp only [Direction.HasRoom] at hroom
      simp only [Direction.move, Direction.sign, Direction.stopOffset, Direction.past] at hpast ⊢
      rw [increment_eq (by omega)]
      split at hpast
      · rw [if_pos ‹_›]
        omega
      · rw [if_neg ‹_›]
        omega
    | clockwise =>
      simp only [Direction.HasRoom] at hroom
      simp only [Direction.move, Direction.sign, Direction.stopOffset, Direction.past] at hpast ⊢
      rw [decrement_eq (by omega)]
      split at hpast
      · omega
      · rw [if_neg ‹_›]
        omega
  refine ⟨hstop, fun d' => ⟨serve_announced hhandler h.announced d.first, fun hseen => ?_, ?_⟩⟩
  · by_cases hsame : d' = d
    · rw [hsame]
      exact (drv.edge_first d).missed
    · have hturned : d'.sign = -d.sign := by
        cases d <;> cases d' <;> first | rfl | exact absurd rfl hsame
      have hsign : d.sign = 1 ∨ d.sign = -1 := by cases d <;> simp [Direction.sign]
      omega
  · have hhome : next.recentlyEncounteredHomeEvent = false := by
      simpa using (drv.edge_first d).home
    rw [hhome, if_neg Bool.false_ne_true, hstop]
    cases d <;> cases d' <;> simp only [Direction.past, Direction.stopOffset, Direction.sign] <;> omega

/-- In the later quarters of a cycle nothing is counted. -/
theorem Geared.uncounted {next : EncoderDrv H} {offset : Int} {d : Direction}
    (h : drv.Geared offset d) (hphase : offset % 4 ≠ 0)
    (hposition : next.encoderPosition = drv.encoderPosition)
    (hhome : next.recentlyEncounteredHomeEvent = drv.recentlyEncounteredHomeEvent)
    (hannounced : next.encoderPositionUpdateNotification = false) :
    next.Geared (offset + d.sign) d := by
  have hpast := h.past
  refine ⟨hannounced, fun hseen => ?_, ?_⟩
  · rw [Int.add_sub_cancel] at hseen
    exact absurd hseen hphase
  · rw [hhome, hposition]
    split at hpast
    · omega
    · rw [if_neg ‹_›]
      cases d <;> simp only [Direction.past, Direction.stopOffset, Direction.sign] at hpast ⊢ <;> omega

/-- Short of a wrap the shaft does not come to the mark. -/
theorem Geared.off_mark {offset : Int} {d : Direction} (h : drv.Geared offset d)
    (hphase : offset % 4 ≠ 0) (hroom : d.HasRoom drv.encoderPosition) :
    (offset + d.sign) % quartersRound ≠ 0 := by
  have hround : quartersRound = 720 := rfl
  have hhigher : encoderDrvEncoderPositionHigherBound = 179 := rfl
  have hlower : encoderDrvEncoderPositionLowerBound = 0 := rfl
  have hpast := h.past
  rw [hround]
  split at hpast
  · omega
  · cases d with
    | anticlockwise =>
      simp only [Direction.HasRoom] at hroom
      simp only [Direction.past, Direction.stopOffset, Direction.sign] at hpast ⊢
      omega
    | clockwise =>
      simp only [Direction.HasRoom] at hroom
      simp only [Direction.past, Direction.stopOffset, Direction.sign] at hpast ⊢
      omega

end Registered

end EncoderDrv

end ClosedLoopStepper.Encoder
