import Mathlib.Data.List.Forall2
import ClosedLoopStepper.Commander.Main
import ClosedLoopStepper.Ipc.Blocks

/-! What a call of the commander's receiver makes of any bytes in the port. It takes one
of four kinds of pieces off the front, or waits for more; so it does not matter when the
bytes arrive. -/
namespace ClosedLoopStepper.Commander
open Foundations Foundations.Framing Ipc

/-- The bytes that a call takes, with what it returns for them. -/
inductive Piece : List UInt8 → Option (List UInt8) → Prop
  | header {a b : UInt8} (h : [a, b] ≠ ipcPacketHeaderParam) : Piece [a, b] none
  | length {n : UInt8} (h : ipcPacketMaxDataLength < n.toNat) :
      Piece (ipcPacketHeaderParam ++ [n]) none
  | crc {n check : UInt8} {payload : List UInt8} (hlength : payload.length = n.toNat)
      (hle : n.toNat ≤ ipcPacketMaxDataLength) (h : check ≠ calculateCrc payload) :
      Piece (ipcPacketHeaderParam ++ [n] ++ (payload ++ [check])) none
  | packet {n : UInt8} {payload : List UInt8} (hlength : payload.length = n.toNat)
      (hle : n.toNat ≤ ipcPacketMaxDataLength) :
      Piece (ipcPacketHeaderParam ++ [n] ++ (payload ++ [calculateCrc payload])) (some payload)

private theorem read_eq_some_iff {size : Nat} {port bytes rest : List UInt8} :
    read size port = some (bytes, rest) ↔ port = bytes ++ rest ∧ bytes.length = size := by
  constructor
  · intro h
    rw [read] at h
    split at h
    · cases h
      exact ⟨(List.take_append_drop size port).symm, List.length_take_of_le ‹_›⟩
    · cases h
  · rintro ⟨rfl, hlength⟩
    exact read_append hlength rest

private theorem fromBytes_singleton (b : UInt8) : fromBytes [b] = b.toNat := rfl

/-- Every piece is taken as what it is. -/
theorem Piece.received {taken : List UInt8} {received : Option (List UInt8)}
    (h : Piece taken received) (rest : List UInt8) :
    receiveDataPacket (taken ++ rest) = some (received, rest) := by
  have hmax : ipcPacketMaxDataLength = 251 := rfl
  have hbytes {n check : UInt8} {payload : List UInt8} (hlength : payload.length = n.toNat) :
      ipcPacketHeaderParam ++ [n] ++ (payload ++ [check]) ++ rest =
        ipcFormat.lsb :: ipcFormat.msb :: UInt8.ofNat payload.length ::
          (payload ++ check :: rest) := by
    rw [hlength, UInt8.ofNat_toNat, List.append_assoc, List.append_assoc, List.append_assoc]
    rfl
  cases h with
  | @header a b hne =>
    have htwo : [a, b].length = ipcPacketHeaderParamSize := rfl
    rw [receiveDataPacket, read_append htwo]
    simp only [Option.bind_eq_bind, Option.bind_some, ne_eq, hne, not_false_eq_true, if_true]
    rfl
  | @length n hlong =>
    have hheader : ipcPacketHeaderParam.length = ipcPacketHeaderParamSize := rfl
    have hone : [n].length = ipcPacketDataLengthParamSize := rfl
    rw [receiveDataPacket, List.append_assoc, read_append hheader]
    simp only [Option.bind_eq_bind, Option.bind_some, ne_eq, not_true_eq_false, if_false]
    rw [read_append hone]
    simp only [Option.bind_some, fromBytes_singleton, gt_iff_lt, hlong, if_true]
    rfl
  | crc hlength hle hne =>
    rw [hbytes hlength, receiveDataPacket_bytes (by omega), if_neg (by omega), if_neg hne]
  | packet hlength hle =>
    rw [hbytes hlength, receiveDataPacket_bytes (by omega), if_neg (by omega), if_pos rfl]

/-- What is taken is always such a piece. -/
theorem receiveDataPacket_piece {port rest : List UInt8} {received : Option (List UInt8)}
    (h : receiveDataPacket port = some (received, rest)) :
    ∃ taken, port = taken ++ rest ∧ Piece taken received := by
  obtain ⟨⟨header, port₁⟩, hheader, hheaderNext⟩ := Option.bind_eq_some_iff.mp h
  obtain ⟨rfl, htwo⟩ := read_eq_some_iff.mp hheader
  dsimp only at hheaderNext
  by_cases hne : header ≠ ipcPacketHeaderParam
  · rw [if_pos hne] at hheaderNext
    cases hheaderNext
    obtain ⟨a, b, rfl⟩ := List.length_eq_two.mp htwo
    exact ⟨_, rfl, .header hne⟩
  · rw [if_neg hne] at hheaderNext
    rw [not_not] at hne
    subst hne
    obtain ⟨⟨lengthParam, port₂⟩, hlength, hlengthNext⟩ := Option.bind_eq_some_iff.mp hheaderNext
    obtain ⟨rfl, hone⟩ := read_eq_some_iff.mp hlength
    obtain ⟨n, rfl⟩ := List.length_eq_one_iff.mp hone
    dsimp only at hlengthNext
    rw [fromBytes_singleton] at hlengthNext
    by_cases hlong : n.toNat > ipcPacketMaxDataLength
    · rw [if_pos hlong] at hlengthNext
      cases hlengthNext
      exact ⟨_, (List.append_assoc _ _ _).symm, .length hlong⟩
    · rw [if_neg hlong] at hlengthNext
      obtain ⟨⟨payload, port₃⟩, hpayload, hpayloadNext⟩ := Option.bind_eq_some_iff.mp hlengthNext
      obtain ⟨rfl, hsize⟩ := read_eq_some_iff.mp hpayload
      obtain ⟨⟨crcParam, port₄⟩, hcrc, hcrcNext⟩ := Option.bind_eq_some_iff.mp hpayloadNext
      obtain ⟨rfl, hlast⟩ := read_eq_some_iff.mp hcrc
      obtain ⟨check, rfl⟩ := List.length_eq_one_iff.mp hlast
      dsimp only at hcrcNext
      rw [fromBytes_singleton] at hcrcNext
      by_cases hcheck : check.toNat ≠ (calculateCrc payload).toNat
      · rw [if_pos hcheck] at hcrcNext
        cases hcrcNext
        refine ⟨_, ?_, .crc hsize (Nat.not_lt.mp hlong) fun he => hcheck (congrArg UInt8.toNat he)⟩
        simp only [List.append_assoc]
      · rw [if_neg hcheck] at hcrcNext
        rw [not_not, UInt8.toNat_inj] at hcheck
        subst hcheck
        cases hcrcNext
        refine ⟨_, ?_, .packet hsize (Nat.not_lt.mp hlong)⟩
        simp only [List.append_assoc]

/-- Bytes that arrive later do not change what has been returned. -/
theorem receiveDataPacket_append {port rest : List UInt8} {received : Option (List UInt8)}
    (h : receiveDataPacket port = some (received, rest)) (later : List UInt8) :
    receiveDataPacket (port ++ later) = some (received, rest ++ later) := by
  obtain ⟨taken, rfl, hpiece⟩ := receiveDataPacket_piece h
  rw [List.append_assoc]
  exact hpiece.received (rest ++ later)

/-- A call waits for all of a piece. -/
theorem Piece.blocks {taken arrived left : List UInt8} {received : Option (List UInt8)}
    (h : Piece taken received) (hsplit : taken = arrived ++ left) (hleft : left ≠ []) :
    receiveDataPacket arrived = none := by
  cases he : receiveDataPacket arrived with
  | none => rfl
  | some result =>
    obtain ⟨received', rest⟩ := result
    have hwhole := h.received []
    rw [List.append_nil, hsplit, receiveDataPacket_append he left] at hwhole
    obtain ⟨_, hnil⟩ := Prod.mk.inj (Option.some.inj hwhole)
    exact absurd (List.append_eq_nil_iff.mp hnil).2 hleft

/-- Bytes without a whole piece at their front can still become one. -/
theorem piece_or_begun (port : List UInt8) :
    (∃ taken rest received, port = taken ++ rest ∧ Piece taken received) ∨
      ∃ left received, left ≠ [] ∧ Piece (port ++ left) received := by
  have hmax : ipcPacketMaxDataLength = 251 := rfl
  match port with
  | [] => exact .inr ⟨[0, 0], none, by decide, .header (by decide)⟩
  | [a] =>
    refine .inr ⟨[0], none, by decide, .header fun heq => ?_⟩
    have hmsb := (List.cons.inj (List.cons.inj heq).2).1
    revert hmsb
    decide
  | a :: b :: port =>
    by_cases hheader : [a, b] = ipcPacketHeaderParam
    · have hport (rest : List UInt8) : a :: b :: rest = ipcPacketHeaderParam ++ rest := by
        rw [← hheader]
        rfl
      match port with
      | [] =>
        refine .inr ⟨[255], none, by decide, ?_⟩
        rw [hport]
        exact .length (by decide)
      | n :: port =>
        by_cases hlong : ipcPacketMaxDataLength < n.toNat
        · refine .inl ⟨ipcPacketHeaderParam ++ [n], port, none, ?_, .length hlong⟩
          rw [hport, List.append_assoc]
          rfl
        · by_cases hwhole : n.toNat < port.length
          · have hsplit : port = port.take n.toNat ++ [port[n.toNat]] ++ port.drop (n.toNat + 1) := by
              rw [List.append_assoc, List.singleton_append, ← List.drop_eq_getElem_cons hwhole,
                List.take_append_drop]
            have htaken : a :: b :: n :: port = ipcPacketHeaderParam ++ [n] ++
                (port.take n.toNat ++ [port[n.toNat]]) ++ port.drop (n.toNat + 1) := by
              rw [List.append_assoc, ← hsplit, List.append_assoc, hport]
              rfl
            have hlength : (port.take n.toNat).length = n.toNat :=
              List.length_take_of_le (Nat.le_of_lt hwhole)
            by_cases hcheck : port[n.toNat] = calculateCrc (port.take n.toNat)
            · rw [hcheck] at htaken
              exact .inl ⟨_, _, _, htaken, .packet hlength (Nat.not_lt.mp hlong)⟩
            · exact .inl ⟨_, _, _, htaken, .crc hlength (Nat.not_lt.mp hlong) hcheck⟩
          · -- the missing bytes, and the checksum of what they complete
            let payload := port ++ List.replicate (n.toNat - port.length) 0
            refine .inr ⟨List.replicate (n.toNat - port.length) 0 ++ [calculateCrc payload],
              some payload, by simp, ?_⟩
            have hbytes : a :: b :: n :: port ++
                (List.replicate (n.toNat - port.length) 0 ++ [calculateCrc payload]) =
                  ipcPacketHeaderParam ++ [n] ++ (payload ++ [calculateCrc payload]) := by
              rw [hport]
              simp [payload]
            rw [hbytes]
            refine .packet ?_ (Nat.not_lt.mp hlong)
            rw [List.length_append, List.length_replicate]
            omega
    · exact .inl ⟨[a, b], port, none, rfl, .header hheader⟩

/-- A call blocks exactly while the port holds the beginning of a piece and no more. -/
theorem receiveDataPacket_blocks_iff (port : List UInt8) :
    receiveDataPacket port = none ↔
      ∃ left received, left ≠ [] ∧ Piece (port ++ left) received := by
  constructor
  · intro hblocks
    refine (piece_or_begun port).resolve_left ?_
    rintro ⟨taken, rest, received, rfl, hpiece⟩
    rw [hpiece.received] at hblocks
    cases hblocks
  · rintro ⟨left, received, hleft, hpiece⟩
    exact hpiece.blocks rfl hleft

private theorem receiveDataPackets_pieces {pieces : List (List UInt8)}
    {received : List (Option (List UInt8))} (h : List.Forall₂ Piece pieces received)
    (rest : List UInt8) :
    receiveDataPackets received.length (pieces.flatten ++ rest) = some (received, rest) := by
  induction h with
  | nil => rfl
  | @cons taken first pieces others hpiece _ ih =>
    rw [List.length_cons, receiveDataPackets, List.flatten_cons, List.append_assoc, hpiece.received]
    simp only [Option.bind_eq_bind, Option.bind_some, ih]
    rfl

/-- The calls return what the port's bytes are pieces of, in order, and leave the rest: how
the bytes arrive makes no difference. -/
theorem receiveDataPackets_iff (calls : Nat) (port rest : List UInt8)
    (received : List (Option (List UInt8))) :
    receiveDataPackets calls port = some (received, rest) ↔
      received.length = calls ∧ ∃ pieces : List (List UInt8),
        port = pieces.flatten ++ rest ∧ List.Forall₂ Piece pieces received := by
  constructor
  · intro h
    induction calls generalizing port received with
    | zero =>
      cases h
      exact ⟨rfl, [], rfl, .nil⟩
    | succ calls ih =>
      rw [receiveDataPackets] at h
      obtain ⟨⟨first, port₁⟩, hfirst, h⟩ := Option.bind_eq_some_iff.mp h
      obtain ⟨⟨others, port₂⟩, hothers, h⟩ := Option.bind_eq_some_iff.mp h
      cases h
      obtain ⟨taken, rfl, hpiece⟩ := receiveDataPacket_piece hfirst
      obtain ⟨hlength, pieces, rfl, hpieces⟩ := ih _ _ hothers
      refine ⟨by rw [List.length_cons, hlength], taken :: pieces, ?_, .cons hpiece hpieces⟩
      rw [List.flatten_cons, List.append_assoc]
  · rintro ⟨rfl, pieces, rfl, hpieces⟩
    exact receiveDataPackets_pieces hpieces rest

private theorem damaged_piece {packet : Packet} (h : ipcFormat.Admits packet.payload) :
    Piece (ipcFormat.damaged packet)
      (if packet.check = calculateCrc packet.payload then some packet.payload else none) := by
  have hlength : packet.payload.length = (UInt8.ofNat packet.payload.length).toNat :=
    (Receiver.length_toNat h).symm
  have hle : (UInt8.ofNat packet.payload.length).toNat ≤ ipcPacketMaxDataLength := by
    rw [← hlength]
    exact h.2
  by_cases hcheck : packet.check = calculateCrc packet.payload
  · rw [if_pos hcheck, Format.damaged, hcheck]
    exact .packet hlength hle
  · rw [if_neg hcheck]
    exact .crc hlength hle hcheck

/-- Over any sequence of frames whose payload and checksum bytes are damaged in any way, the
two decoders stay in step: the firmware puts every packet, with the checksum byte to be
compared, and the commander's calls return the payloads that match theirs. -/
theorem decoders_in_step (handler : Option Unit) (packets : List Packet)
    (h : ∀ p ∈ packets, ipcFormat.Admits p.payload) :
    let bytes := packets.flatMap ipcFormat.damaged
    let received := (ipcInit .initial handler).1.receive bytes
    received.2 = packets.map postProcessingParams ∧
      received.1.ipcStateMachineState = .idle ∧ received.1.ipcStateMachineParams = ⟨0, 0, 0⟩ ∧
      receiveDataPackets packets.length bytes = some (packets.map fun p =>
        if p.check = calculateCrc p.payload then some p.payload else none, []) := by
  intro bytes received
  have hr : Represents (ipcInit (.initial (H := Unit)) handler).1 (.hunting false) := ⟨rfl, rfl⟩
  obtain ⟨hrepresents, hputs⟩ := receive_follows hr bytes
  rw [feed_damaged h] at hrepresents hputs
  refine ⟨hputs, hrepresents.1, hrepresents.2, ?_⟩
  have hpieces : List.Forall₂ Piece (packets.map ipcFormat.damaged) (packets.map fun p =>
      if p.check = calculateCrc p.payload then some p.payload else none) := by
    rw [List.forall₂_map_left_iff, List.forall₂_map_right_iff, List.forall₂_same]
    exact fun p hp => damaged_piece (h p hp)
  have hreturned := receiveDataPackets_pieces hpieces []
  rw [List.length_map, List.append_nil, ← List.flatMap] at hreturned
  exact hreturned

/-- A whole frame between two damaged ones. -/
theorem decoders_in_step_three :
    let packets : List Packet := [⟨[0, 90, 0], 91⟩, ⟨[0, 90, 0], 90⟩, ⟨[0xA5, 0x5A], 0⟩]
    let bytes := packets.flatMap ipcFormat.damaged
    let received := (ipcInit .initial (none : Option Unit)).1.receive bytes
    received.2 = packets.map postProcessingParams ∧
      received.1.ipcStateMachineState = .idle ∧ received.1.ipcStateMachineParams = ⟨0, 0, 0⟩ ∧
      receiveDataPackets packets.length bytes = some (packets.map fun p =>
        if p.check = calculateCrc p.payload then some p.payload else none, []) :=
  decoders_in_step none _ (by decide)

end ClosedLoopStepper.Commander
