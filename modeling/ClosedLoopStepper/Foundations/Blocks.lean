import ClosedLoopStepper.Foundations.Framing

/-! What the framing receiver makes of any bytes at all. From its start it takes one block
of four kinds after the other, of which only one is a packet; its state is that of the
block begun. -/
namespace Foundations.Framing
variable (f : Format)

/-- The bytes that take the receiver from its start back there, with what is handed over. -/
inductive Block : List UInt8 → Option Packet → Prop
  | other {b : UInt8} (h : b ≠ f.lsb) : Block [b] none
  | header {b : UInt8} (h : b ≠ f.msb) : Block [f.lsb, b] none
  | length {b : UInt8} (h : ¬ (0 < b.toNat ∧ b.toNat ≤ f.maxLength)) : Block [f.lsb, f.msb, b] none
  | packet {payload : List UInt8} {check : UInt8} (h : f.Admits payload) :
      Block (f.lsb :: f.msb :: UInt8.ofNat payload.length :: (payload ++ [check]))
        (some ⟨payload, check⟩)

/-- The bytes of a block that the receiver is in the middle of. -/
inductive Begun : Receiver → List UInt8 → Prop
  | start : Begun (.hunting false) []
  | half : Begun (.hunting true) [f.lsb]
  | length : Begun .length [f.lsb, f.msb]
  | data {expected : UInt8} {payload : List UInt8} (hlt : payload.length < expected.toNat)
      (hle : expected.toNat ≤ f.maxLength) :
      Begun (.data expected.toNat payload) (f.lsb :: f.msb :: expected :: payload)
  | check {payload : List UInt8} (h : f.Admits payload) :
      Begun (.check payload) (f.lsb :: f.msb :: UInt8.ofNat payload.length :: payload)

variable {f}

/-- One more byte goes on with the block, or ends it. -/
theorem Begun.step {r : Receiver} {bytes : List UInt8} (h : Begun f r bytes) (b : UInt8) :
    (∃ next, r.step f b = (next, none) ∧ Begun f next (bytes ++ [b])) ∨
      ∃ packet, r.step f b = (.hunting false, packet) ∧ Block f (bytes ++ [b]) packet := by
  cases h with
  | start =>
    by_cases hb : b = f.lsb
    · subst hb
      exact .inl ⟨.hunting true, by simp [Receiver.step], .half⟩
    · exact .inr ⟨none, by simp [Receiver.step, hb], .other hb⟩
  | half =>
    by_cases hb : b = f.msb
    · subst hb
      exact .inl ⟨.length, by simp [Receiver.step], .length⟩
    · exact .inr ⟨none, by simp [Receiver.step, hb], .header hb⟩
  | length =>
    by_cases hb : 0 < b.toNat ∧ b.toNat ≤ f.maxLength
    · exact .inl ⟨.data b.toNat [], congrArg (·, none) (if_pos hb), .data hb.1 hb.2⟩
    · exact .inr ⟨none, congrArg (·, none) (if_neg hb), .length hb⟩
  | @data expected payload hlt hle =>
    left
    have hlength : (payload ++ [b]).length = payload.length + 1 := by
      rw [List.length_append, List.length_singleton]
    by_cases hend : (payload ++ [b]).length = expected.toNat
    · have hexpected : expected = UInt8.ofNat (payload ++ [b]).length := by
        rw [hend, UInt8.ofNat_toNat]
      refine ⟨.check (payload ++ [b]), congrArg (·, none) (if_pos hend), ?_⟩
      rw [List.cons_append, List.cons_append, List.cons_append, hexpected]
      exact .check ⟨by omega, by omega⟩
    · exact ⟨.data expected.toNat (payload ++ [b]), congrArg (·, none) (if_neg hend),
        .data (by omega) hle⟩
  | @check payload hadmits => exact .inr ⟨some ⟨payload, b⟩, rfl, .packet hadmits⟩

private theorem Receiver.feed_collect {expected : Nat} {got bytes : List UInt8}
    (h : got.length + bytes.length < expected) :
    (data expected got).feed f bytes = (data expected (got ++ bytes), []) := by
  induction bytes generalizing got with
  | nil => rw [feed_nil, List.append_nil]
  | cons b rest ih =>
    rw [List.length_cons] at h
    have hlength : (got ++ [b]).length = got.length + 1 := by
      rw [List.length_append, List.length_singleton]
    have hstep : (data expected got).step f b = (data expected (got ++ [b]), none) :=
      congrArg (·, none) (if_neg (by omega))
    rw [feed_silent f hstep, ih (by omega), List.append_assoc, List.singleton_append]

/-- The receiver is in the middle of what it was fed. -/
theorem Begun.feed {r : Receiver} {bytes : List UInt8} (h : Begun f r bytes) :
    (Receiver.hunting false).feed f bytes = (r, []) := by
  have hlsb : (Receiver.hunting false).step f f.lsb = (.hunting true, none) := by
    simp [Receiver.step]
  have hmsb : (Receiver.hunting true).step f f.msb = (.length, none) := by simp [Receiver.step]
  cases h with
  | start => rfl
  | half => rw [Receiver.feed_silent f hlsb, Receiver.feed_nil]
  | length => rw [Receiver.feed_silent f hlsb, Receiver.feed_silent f hmsb, Receiver.feed_nil]
  | check hadmits => exact Receiver.feed_frame_init hadmits
  | @data expected payload hlt hle =>
    have hexpected : Receiver.length.step f expected = (.data expected.toNat [], none) :=
      congrArg (·, none) (if_pos ⟨by omega, hle⟩)
    rw [Receiver.feed_silent f hlsb, Receiver.feed_silent f hmsb, Receiver.feed_silent f hexpected]
    exact Receiver.feed_collect (by simpa using hlt)

theorem Block.feed {bytes : List UInt8} {packet : Option Packet} (h : Block f bytes packet) :
    (Receiver.hunting false).feed f bytes = (.hunting false, packet.toList) := by
  have hlsb : (Receiver.hunting false).step f f.lsb = (.hunting true, none) := by
    simp [Receiver.step]
  cases h with
  | @other b hb =>
    have hstep : (Receiver.hunting false).step f b = (.hunting false, none) := by
      simp [Receiver.step, hb]
    rw [Receiver.feed_silent f hstep]
    rfl
  | @header b hb =>
    have hstep : (Receiver.hunting true).step f b = (.hunting false, none) := by
      simp [Receiver.step, hb]
    rw [Receiver.feed_silent f hlsb, Receiver.feed_silent f hstep]
    rfl
  | length hb => exact Receiver.feed_length_refused hb
  | packet hadmits => exact Receiver.feed_packet hadmits _

/-- Blocks are taken one after the other, and what follows them from the start. -/
theorem feed_blocks {blocks : List (List UInt8 × Option Packet)}
    (h : ∀ block ∈ blocks, Block f block.1 block.2) (rest : List UInt8) :
    (Receiver.hunting false).feed f ((blocks.map Prod.fst).flatten ++ rest) =
      (((Receiver.hunting false).feed f rest).1,
        blocks.filterMap Prod.snd ++ ((Receiver.hunting false).feed f rest).2) := by
  induction blocks with
  | nil => rfl
  | cons block blocks ih =>
    rw [List.forall_mem_cons] at h
    rw [List.map_cons, List.flatten_cons, List.append_assoc, Receiver.feed_append, h.1.feed, ih h.2,
      List.filterMap_cons]
    cases block.2 <;> rfl

/-- Any bytes are blocks and the beginning of one. -/
theorem exists_blocks (f : Format) (bytes : List UInt8) :
    ∃ (blocks : List (List UInt8 × Option Packet)) (r : Receiver) (rest : List UInt8),
      bytes = (blocks.map Prod.fst).flatten ++ rest ∧
        (∀ block ∈ blocks, Block f block.1 block.2) ∧ Begun f r rest := by
  induction bytes using List.reverseRecOn with
  | nil => exact ⟨[], .hunting false, [], rfl, nofun, .start⟩
  | append_singleton bytes b ih =>
    obtain ⟨blocks, r, rest, rfl, hblocks, hbegun⟩ := ih
    rcases hbegun.step b with ⟨next, _, hnext⟩ | ⟨packet, _, hblock⟩
    · exact ⟨blocks, next, rest ++ [b], List.append_assoc _ _ _, hblocks, hnext⟩
    · refine ⟨blocks ++ [(rest ++ [b], packet)], .hunting false, [], ?_, ?_, .start⟩
      · rw [List.map_append, List.flatten_append, List.append_nil, List.append_assoc]
        congr 1
        exact (List.append_nil _).symm
      · intro block hmem
        rcases List.mem_append.mp hmem with hbefore | hnew
        · exact hblocks block hbefore
        · obtain rfl := List.mem_singleton.mp hnew
          exact hblock

/-- What the receiver has handed over, and where it is, is told by the blocks. -/
theorem feed_iff_blocks (bytes : List UInt8) (r : Receiver) (packets : List Packet) :
    (Receiver.hunting false).feed f bytes = (r, packets) ↔
      ∃ (blocks : List (List UInt8 × Option Packet)) (rest : List UInt8),
        bytes = (blocks.map Prod.fst).flatten ++ rest ∧
          (∀ block ∈ blocks, Block f block.1 block.2) ∧ Begun f r rest ∧
          packets = blocks.filterMap Prod.snd := by
  constructor
  · intro hfeed
    obtain ⟨blocks, r', rest, rfl, hblocks, hbegun⟩ := exists_blocks f bytes
    rw [feed_blocks hblocks, hbegun.feed, List.append_nil] at hfeed
    obtain ⟨rfl, rfl⟩ := Prod.mk.inj hfeed
    exact ⟨blocks, rest, rfl, hblocks, hbegun, rfl⟩
  · rintro ⟨blocks, rest, rfl, hblocks, hbegun, rfl⟩
    rw [feed_blocks hblocks, hbegun.feed, List.append_nil]

def Format.damaged (f : Format) (packet : Packet) : List UInt8 :=
  f.lsb :: f.msb :: UInt8.ofNat packet.payload.length :: (packet.payload ++ [packet.check])

/-- Packets one after another are all received, with whatever checksum bytes. -/
theorem feed_damaged {packets : List Packet} (h : ∀ p ∈ packets, f.Admits p.payload) :
    (Receiver.hunting false).feed f (packets.flatMap f.damaged) = (.hunting false, packets) := by
  refine (feed_iff_blocks _ _ _).mpr
    ⟨packets.map fun p => (f.damaged p, some p), [], ?_, ?_, .start, ?_⟩
  · rw [List.append_nil, List.map_map, List.flatMap]
    rfl
  · intro block hblock
    obtain ⟨p, hp, rfl⟩ := List.mem_map.mp hblock
    exact .packet (h p hp)
  · rw [List.filterMap_map]
    exact List.filterMap_some.symm

end Foundations.Framing
