import Mathlib.Data.List.DropRight
import Mathlib.Algebra.Group.Nat.Even

/-! Byte framing: two header bytes, a length byte, the payload and a checksum byte.
The receiver accumulates the payload it has seen, and hands over each packet with the
checksum byte that came with it. -/
namespace Foundations.Framing

structure Format where
  lsb : UInt8
  msb : UInt8
  maxLength : Nat
  checksum : List UInt8 → UInt8
  maxLength_lt : maxLength < 256

/-- A payload as received, with the checksum byte that followed it. -/
structure Packet where
  payload : List UInt8
  check : UInt8
  deriving DecidableEq, Repr

namespace Format

def Admits (f : Format) (payload : List UInt8) : Prop :=
  0 < payload.length ∧ payload.length ≤ f.maxLength

instance (f : Format) (payload : List UInt8) : Decidable (f.Admits payload) :=
  inferInstanceAs (Decidable (_ ∧ _))

def frame (f : Format) (payload : List UInt8) : List UInt8 :=
  f.lsb :: f.msb :: UInt8.ofNat payload.length :: (payload ++ [f.checksum payload])

def packet (f : Format) (payload : List UInt8) : Packet := ⟨payload, f.checksum payload⟩

end Format

inductive Receiver
  | hunting (half : Bool)
  | length
  | data (expected : Nat) (payload : List UInt8)
  | check (payload : List UInt8)
  deriving DecidableEq, Repr

namespace Receiver

/-- After the first header byte only the second one is looked for; any other byte
starts the hunt afresh. -/
def step (f : Format) : Receiver → UInt8 → Receiver × Option Packet
  | hunting false, b => (hunting (b == f.lsb), none)
  | hunting true, b => (if b = f.msb then length else hunting false, none)
  | length, b =>
    (if 0 < b.toNat ∧ b.toNat ≤ f.maxLength then data b.toNat [] else hunting false, none)
  | data expected payload, b =>
    let payload := payload ++ [b]
    (if payload.length = expected then check payload else data expected payload, none)
  | check payload, b => (hunting false, some ⟨payload, b⟩)

def feed (f : Format) : Receiver → List UInt8 → Receiver × List Packet
  | r, [] => (r, [])
  | r, b :: rest =>
    let next := r.step f b
    let last := feed f next.1 rest
    (last.1, next.2.toList ++ last.2)

variable (f : Format)

@[simp] theorem feed_nil (r : Receiver) : r.feed f [] = (r, []) := rfl

theorem feed_cons (r : Receiver) (b : UInt8) (rest : List UInt8) :
    r.feed f (b :: rest) =
      (((r.step f b).1.feed f rest).1, (r.step f b).2.toList ++ ((r.step f b).1.feed f rest).2) :=
  rfl

theorem feed_append (r : Receiver) (a b : List UInt8) :
    r.feed f (a ++ b) =
      (((r.feed f a).1.feed f b).1, (r.feed f a).2 ++ ((r.feed f a).1.feed f b).2) := by
  induction a generalizing r with
  | nil => simp
  | cons c rest ih => rw [List.cons_append, feed_cons, ih, feed_cons, List.append_assoc]

/-- More bytes only add packets. -/
theorem feed_prefix {a b : List UInt8} (r : Receiver) (h : a <+: b) :
    (r.feed f a).2 <+: (r.feed f b).2 := by
  obtain ⟨rest, rfl⟩ := h
  rw [feed_append]
  exact List.prefix_append _ _

/-- A step that hands nothing over can be taken off the front. -/
theorem feed_silent {r r' : Receiver} {b : UInt8} (h : r.step f b = (r', none))
    (rest : List UInt8) : r.feed f (b :: rest) = r'.feed f rest := by
  rw [feed_cons, h]
  rfl

/-- Bytes other than the first header byte leave the hunt where it was. -/
theorem feed_filler {filler : List UInt8} (h : f.lsb ∉ filler) :
    (hunting false).feed f filler = (hunting false, []) := by
  induction filler with
  | nil => rfl
  | cons b rest ih =>
    rw [List.mem_cons, not_or] at h
    have hstep : (hunting false).step f b = (hunting false, none) := by
      simp [step, Ne.symm h.1]
    rw [feed_silent f hstep, ih h.2]

private theorem feed_payload {got bytes : List UInt8} (h : bytes ≠ []) :
    (data (got.length + bytes.length) got).feed f bytes = (check (got ++ bytes), []) := by
  induction bytes generalizing got with
  | nil => exact absurd rfl h
  | cons b rest ih =>
    by_cases hrest : rest = []
    · subst hrest
      simp [feed, step]
    · have hpos := List.length_pos_iff.mpr hrest
      have hstep : (data (got.length + (b :: rest).length) got).step f b =
          (data ((got ++ [b]).length + rest.length) (got ++ [b]), none) := by
        simp only [step, List.length_append, List.length_cons, List.length_nil]
        rw [if_neg (by omega)]
        congr 2
        omega
      rw [feed_silent f hstep, ih hrest, List.append_assoc, List.singleton_append]

variable {f}

theorem length_toNat {payload : List UInt8} (h : f.Admits payload) :
    (UInt8.ofNat payload.length).toNat = payload.length := by
  have hlt := f.maxLength_lt
  have hle := h.2
  rw [UInt8.toNat_ofNat', Nat.mod_eq_of_lt (by omega)]

/-- All of a frame but its last byte leaves the receiver waiting for the checksum. -/
theorem feed_frame_init {payload : List UInt8} (h : f.Admits payload) :
    (hunting false).feed f (f.lsb :: f.msb :: UInt8.ofNat payload.length :: payload) =
      (check payload, []) := by
  have hne : payload ≠ [] := List.length_pos_iff.mp h.1
  have hlsb : (hunting false).step f f.lsb = (hunting true, none) := by simp [step]
  have hmsb : (hunting true).step f f.msb = (length, none) := by simp [step]
  have hlength : length.step f (UInt8.ofNat payload.length) =
      (data (([] : List UInt8).length + payload.length) [], none) := by
    simp only [step, length_toNat h, List.length_nil, Nat.zero_add]
    rw [if_pos ⟨h.1, h.2⟩]
  rw [feed_silent f hlsb, feed_silent f hmsb, feed_silent f hlength, feed_payload f hne]
  rfl

/-- A frame with any checksum byte is received as its payload with that byte. -/
theorem feed_packet {payload : List UInt8} (h : f.Admits payload) (check : UInt8) :
    (hunting false).feed f
        (f.lsb :: f.msb :: UInt8.ofNat payload.length :: (payload ++ [check])) =
      (hunting false, [⟨payload, check⟩]) := by
  rw [← List.cons_append, ← List.cons_append, ← List.cons_append, feed_append, feed_frame_init h]
  rfl

/-- A frame is received as the packet it was made of. -/
theorem feed_frame {payload : List UInt8} (h : f.Admits payload) :
    (hunting false).feed f (f.frame payload) = (hunting false, [f.packet payload]) :=
  feed_packet h (f.checksum payload)

theorem feed_concat (r : Receiver) (bytes : List UInt8) (b : UInt8) :
    r.feed f (bytes ++ [b]) =
      (((r.feed f bytes).1.step f b).1,
        (r.feed f bytes).2 ++ ((r.feed f bytes).1.step f b).2.toList) := by
  rw [feed_append, feed_cons, feed_nil, List.append_nil]

/-- Within a frame it is the last byte that hands over the packet, and no other. -/
theorem step_frame_byte {payload taken left : List UInt8} {b : UInt8} (h : f.Admits payload)
    (hframe : taken ++ b :: left = f.frame payload) :
    (((hunting false).feed f taken).1.step f b).2 =
      if left = [] then some (f.packet payload) else none := by
  have hinit : (f.frame payload).dropLast =
      f.lsb :: f.msb :: UInt8.ofNat payload.length :: payload := by
    rw [Format.frame, ← List.cons_append, ← List.cons_append, ← List.cons_append,
      List.dropLast_concat]
  have hsilent {bytes : List UInt8} (hbytes : bytes <+: (f.frame payload).dropLast) :
      ((hunting false).feed f bytes).2 = [] := by
    have hprefix := feed_prefix f (hunting false) hbytes
    rw [hinit, feed_frame_init h] at hprefix
    exact List.prefix_nil.mp hprefix
  have hone := congrArg Prod.snd (feed_concat (f := f) (hunting false) taken b)
  dsimp only at hone
  by_cases hleft : left = []
  · subst hleft
    have htaken : taken = (f.frame payload).dropLast := by rw [← hframe, List.dropLast_concat]
    rw [hframe, feed_frame h, hsilent (htaken ▸ List.prefix_refl _), List.nil_append] at hone
    rw [if_pos rfl]
    exact Option.toList_eq_singleton_iff.mp hone.symm
  · have htaken : taken ++ [b] <+: (f.frame payload).dropLast := by
      refine ⟨left.dropLast, ?_⟩
      rw [← hframe, List.append_assoc, List.singleton_append, List.dropLast_append_of_ne_nil
        (List.cons_ne_nil b left), List.dropLast_cons_of_ne_nil hleft]
    rw [hsilent htaken] at hone
    rw [if_neg hleft]
    exact Option.toList_eq_nil_iff.mp (List.append_eq_nil_iff.mp hone.symm).2

/-- The rest of a frame hands over its packet. -/
theorem feed_frame_rest {payload taken left : List UInt8} (h : f.Admits payload)
    (hframe : taken ++ left = f.frame payload) (hleft : left ≠ []) :
    (((hunting false).feed f taken).1.feed f left).2 = [f.packet payload] := by
  induction left generalizing taken with
  | nil => exact absurd rfl hleft
  | cons b rest ih =>
    have hhands := step_frame_byte h hframe
    rw [feed_cons, hhands]
    by_cases hrest : rest = []
    · rw [if_pos hrest, hrest]
      rfl
    · have hnext : ((hunting false).feed f (taken ++ [b])).1 =
          (((hunting false).feed f taken).1.step f b).1 :=
        congrArg Prod.fst (feed_concat (hunting false) taken b)
      rw [if_neg hrest, ← hnext]
      refine ih ?_ hrest
      rw [List.append_assoc]
      exact hframe

/-- The bytes of a frame that have been taken, up to all but the last of the shortest one. -/
def progress : Receiver → Nat
  | hunting half => if half then 1 else 0
  | length => 2
  | data _ payload => if payload = [] then 3 else 4
  | check _ => 4

theorem progress_le (r : Receiver) : r.progress ≤ 4 := by
  unfold progress
  split
  · split <;> omega
  · omega
  · split <;> omega
  · omega

/-- A packet takes five bytes at least. -/
theorem step_progress (r : Receiver) (b : UInt8) :
    (r.step f b).1.progress + 5 * (r.step f b).2.toList.length ≤ r.progress + 1 := by
  cases r with
  | hunting half =>
    cases half with
    | false =>
      simp only [step, progress]
      split <;> simp
    | true =>
      simp only [step]
      split <;> simp [progress]
  | length =>
    simp only [step]
    split <;> simp [progress]
  | data expected payload =>
    have hne : payload ++ [b] ≠ [] := List.append_ne_nil_of_right_ne_nil payload (List.cons_ne_nil b [])
    simp only [step]
    split <;> simp only [progress, if_neg hne, Option.toList_none, List.length_nil]
    · split <;> omega
    · split <;> omega
  | check payload => simp [step, progress]

/-- Frames one after another are received as their packets, in order. -/
theorem feed_frames {payloads : List (List UInt8)} (h : ∀ p ∈ payloads, f.Admits p) :
    (hunting false).feed f (payloads.flatMap f.frame) =
      (hunting false, payloads.map f.packet) := by
  induction payloads with
  | nil => rfl
  | cons p rest ih =>
    rw [List.forall_mem_cons] at h
    rw [List.flatMap_cons, feed_append, feed_frame h.1, ih h.2]
    rfl

/-- A length that is not admitted sends the receiver back to the hunt. -/
theorem feed_length_refused {b : UInt8} (h : ¬ (0 < b.toNat ∧ b.toNat ≤ f.maxLength)) :
    (hunting false).feed f [f.lsb, f.msb, b] = (hunting false, []) := by
  simp [feed, step, if_neg h]

def held : Receiver → Nat
  | hunting half => if half then 1 else 0
  | length => 2
  | data _ payload => payload.length + 3
  | check payload => payload.length + 3

private theorem step_held (r : Receiver) (b : UInt8) : (r.step f b).1.held ≤ r.held + 1 := by
  cases r with
  | hunting half =>
    cases half with
    | false =>
      simp only [step, held]
      split <;> decide
    | true =>
      simp only [step]
      split <;> decide
  | length =>
    simp only [step]
    split
    · exact Nat.le_refl 3
    · exact Nat.zero_le 3
  | data expected payload =>
    simp only [step]
    split <;> simp [held]
  | check payload => exact Nat.zero_le _

private theorem step_packet {r : Receiver} {b : UInt8} {packet : Packet}
    (h : packet ∈ (r.step f b).2) :
    packet.payload.length + 4 = r.held + 1 := by
  cases r with
  | check payload => rw [← Option.some.inj h, held]
  | hunting half => cases half <;> cases h
  | length => cases h
  | data expected payload => cases h

/-- A packet takes four bytes more than its payload, those already held included. -/
theorem feed_counted {r : Receiver} {bytes : List UInt8} {packet : Packet}
    (h : packet ∈ (r.feed f bytes).2) : packet.payload.length + 4 ≤ r.held + bytes.length := by
  induction bytes generalizing r with
  | nil => cases h
  | cons b rest ih =>
    rw [feed_cons, List.mem_append, Option.mem_toList] at h
    rw [List.length_cons]
    rcases h with hnow | hlater
    · have hsize := step_packet hnow
      omega
    · have hheld := step_held (f := f) r b
      have hsize := ih hlater
      omega

/-! Back to the hunt. A receiver that is not given the first header byte only gets nearer
to it, and hands over no more than the packet it has begun. -/

def WellFormed (f : Format) : Receiver → Prop
  | data expected payload => payload.length < expected ∧ expected ≤ f.maxLength
  | _ => True

/-- How many bytes it takes at most until the receiver hunts for a header from its start. -/
def toHunt (f : Format) : Receiver → Nat
  | hunting half => if half then f.maxLength + 3 else 0
  | length => f.maxLength + 2
  | data expected payload => expected - payload.length + 1
  | check _ => 1

/-- Whether a packet may be handed over before that. -/
def begun : Receiver → Nat
  | hunting false => 0
  | _ => 1

private theorem WellFormed.toHunt_le {r : Receiver} (h : r.WellFormed f) :
    r.toHunt f ≤ f.maxLength + 3 := by
  cases r with
  | hunting half =>
    rw [toHunt]
    split <;> omega
  | length => exact Nat.le_succ _
  | data expected payload =>
    have hle := h.2
    rw [toHunt]
    omega
  | check payload => exact Nat.le_add_left 1 _

theorem WellFormed.step {r : Receiver} (h : r.WellFormed f) (b : UInt8) :
    (r.step f b).1.WellFormed f := by
  cases r with
  | hunting half =>
    cases half with
    | false => trivial
    | true =>
      simp only [Receiver.step]
      split <;> trivial
  | length =>
    simp only [Receiver.step]
    split
    · exact ‹0 < b.toNat ∧ b.toNat ≤ f.maxLength›
    · trivial
  | data expected payload =>
    have hlt := h.1
    simp only [Receiver.step]
    split
    · trivial
    · rename_i hne
      rw [List.length_append, List.length_singleton] at hne
      refine ⟨?_, h.2⟩
      rw [List.length_append, List.length_singleton]
      omega
  | check payload => trivial

/-- One byte nearer, whatever the byte is in the state it comes in. -/
theorem step_toHunt {r : Receiver} (h : r.WellFormed f) {b : UInt8} (hb : b ≠ f.lsb) :
    (r.step f b).1.toHunt f ≤ r.toHunt f - 1 := by
  cases r with
  | hunting half =>
    cases half with
    | false => simp [step, toHunt, hb]
    | true =>
      simp only [step]
      split <;> simp [toHunt]
  | length =>
    simp only [step]
    split
    · rename_i hadmitted
      simp only [toHunt, List.length_nil]
      omega
    · exact Nat.zero_le _
  | data expected payload =>
    have hlt := h.1
    simp only [step]
    split
    · simp only [toHunt]
      omega
    · simp only [toHunt, List.length_append, List.length_singleton]
      omega
  | check payload => exact Nat.le_refl 0

private theorem step_begun (r : Receiver) {b : UInt8} (hb : b ≠ f.lsb) :
    (r.step f b).2.toList.length + (r.step f b).1.begun ≤ r.begun := by
  cases r with
  | hunting half =>
    cases half with
    | false =>
      have hother : (b == f.lsb) = false := by simpa using hb
      simp [step, begun, hother]
    | true =>
      simp only [step]
      split <;> simp [begun]
  | length =>
    simp only [step]
    split <;> simp [begun]
  | data expected payload =>
    simp only [step]
    split <;> simp [begun]
  | check payload => exact Nat.le_refl 1

private theorem hunting_of_toHunt {r : Receiver} (h : r.toHunt f = 0) : r = hunting false := by
  cases r with
  | hunting half =>
    cases half with
    | false => rfl
    | true => cases h
  | length => cases h
  | data expected payload => cases h
  | check payload => cases h

/-- As many bytes nearer as there are bytes, and at most the packet begun. -/
theorem feed_toHunt {r : Receiver} (h : r.WellFormed f) {bytes : List UInt8}
    (hquiet : f.lsb ∉ bytes) :
    (r.feed f bytes).1.toHunt f ≤ r.toHunt f - bytes.length ∧
      (r.feed f bytes).2.length ≤ r.begun := by
  induction bytes generalizing r with
  | nil => exact ⟨Nat.le_refl _, Nat.zero_le _⟩
  | cons b rest ih =>
    rw [List.mem_cons, not_or] at hquiet
    have hnearer := step_toHunt h (Ne.symm hquiet.1)
    have hpackets := step_begun r (Ne.symm hquiet.1)
    obtain ⟨hrest, hmore⟩ := ih (h.step b) hquiet.2
    rw [feed_cons, List.length_cons, List.length_append]
    refine ⟨hrest.trans ?_, ?_⟩
    · omega
    · omega

/-- A longest frame but its first byte is enough, wherever the receiver was. -/
theorem feed_quiet {r : Receiver} (h : r.WellFormed f) {bytes : List UInt8}
    (hquiet : f.lsb ∉ bytes) (hlong : f.maxLength + 3 ≤ bytes.length) :
    (r.feed f bytes).1 = hunting false ∧ (r.feed f bytes).2.length ≤ 1 := by
  obtain ⟨hnearer, hpackets⟩ := feed_toHunt h hquiet
  have hle := h.toHunt_le
  have hone : r.begun ≤ 1 := by
    unfold begun
    split <;> omega
  exact ⟨hunting_of_toHunt (f := f) (by omega), by omega⟩

/-! Bytes without a header. The hunt takes the bytes of a run of first header bytes in
pairs, so what it makes of the next byte depends on the parity of the run. -/

variable (f)

def Headless (bytes : List UInt8) : Prop := ¬ [f.lsb, f.msb] <:+: bytes

instance (bytes : List UInt8) : Decidable (Headless f bytes) := inferInstanceAs (Decidable (¬ _))

/-- The length of the run of first header bytes at the end. -/
def trailing (bytes : List UInt8) : Nat := (bytes.rtakeWhile (· == f.lsb)).length

private theorem trailing_lsb (bytes : List UInt8) :
    trailing f (bytes ++ [f.lsb]) = trailing f bytes + 1 := by
  rw [trailing, List.rtakeWhile_concat_pos _ _ _ (by simp), List.length_append,
    List.length_singleton]
  rfl

private theorem trailing_other (bytes : List UInt8) {b : UInt8} (h : b ≠ f.lsb) :
    trailing f (bytes ++ [b]) = 0 := by
  rw [trailing, List.rtakeWhile_concat_neg _ _ _ (by simpa using h), List.length_nil]

private theorem ends_in_lsb {bytes : List UInt8} (h : trailing f bytes ≠ 0) :
    ∃ before, bytes = before ++ [f.lsb] := by
  induction bytes using List.reverseRecOn with
  | nil => exact absurd rfl h
  | append_singleton before b =>
    by_cases hb : b = f.lsb
    · exact ⟨before, by rw [hb]⟩
    · exact absurd (trailing_other f before hb) h

/-- Where no header occurs nothing is handed over, and the hunt is half way through a
header exactly after a run of odd length. -/
theorem feed_headless {bytes : List UInt8} (h : Headless f bytes) :
    (hunting false).feed f bytes = (hunting (trailing f bytes % 2 == 1), []) := by
  induction bytes using List.reverseRecOn with
  | nil => rfl
  | append_singleton before b ih =>
    have hbefore : Headless f before := fun hin =>
      h (hin.trans (List.infix_append' [] before [b]))
    rw [feed_append, ih hbefore]
    cases hhalf : trailing f before % 2 == 1 with
    | false =>
      by_cases hb : b = f.lsb
      · have hnext : (trailing f (before ++ [b]) % 2 == 1) = true := by
          rw [beq_eq_false_iff_ne] at hhalf
          rw [hb, trailing_lsb, beq_iff_eq]
          omega
        simp [feed, step, hb, hb ▸ hnext]
      · simp [feed, step, hb, trailing_other f before hb]
    | true =>
      rw [beq_iff_eq] at hhalf
      have hmsb : b ≠ f.msb := by
        intro hb
        have hpos : trailing f before ≠ 0 := by omega
        obtain ⟨start, hstart⟩ := ends_in_lsb f hpos
        apply h
        rw [hstart, hb, List.append_assoc]
        exact (List.suffix_append start _).isInfix
      have hnext : (trailing f (before ++ [b]) % 2 == 1) = false := by
        rw [beq_eq_false_iff_ne]
        by_cases hb : b = f.lsb
        · rw [hb, trailing_lsb]
          omega
        · rw [trailing_other f before hb]
          decide
      simp [feed, step, hmsb, hnext]

theorem feed_even {bytes : List UInt8} (h : Headless f bytes) (heven : Even (trailing f bytes)) :
    (hunting false).feed f bytes = (hunting false, []) := by
  have hhalf : (trailing f bytes % 2 == 1) = false := by
    rw [beq_eq_false_iff_ne, Nat.even_iff.mp heven]
    decide
  rw [feed_headless f h, hhalf]

private theorem feed_odd {bytes : List UInt8} (h : Headless f bytes)
    (hodd : ¬ Even (trailing f bytes)) :
    (hunting false).feed f bytes = (hunting true, []) := by
  have hhalf : (trailing f bytes % 2 == 1) = true := by
    rw [Nat.even_iff] at hodd
    rw [beq_iff_eq]
    omega
  rw [feed_headless f h, hhalf]

/-- A header after such bytes is found after a run of even length, and missed after one
of odd length. -/
theorem feed_header (hne : f.lsb ≠ f.msb) {bytes : List UInt8} (h : Headless f bytes) :
    (hunting false).feed f (bytes ++ [f.lsb, f.msb]) =
      (if Even (trailing f bytes) then length else hunting false, []) := by
  rw [feed_append]
  by_cases heven : Even (trailing f bytes)
  · rw [feed_even f h heven, if_pos heven]
    simp [feed, step]
  · rw [feed_odd f h heven, if_neg heven]
    simp [feed, step, hne, hne.symm]

end Receiver
end Foundations.Framing
