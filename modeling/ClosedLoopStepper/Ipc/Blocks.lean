import ClosedLoopStepper.Foundations.Blocks
import ClosedLoopStepper.Ipc.Synchronisation

/-! What the receive state machine makes of any bytes since its start, read off the bytes
themselves. -/
namespace ClosedLoopStepper.Ipc
open Foundations.Framing
variable {H : Type}

private theorem ofNat_inj_of_le {m n : Nat} (hm : m ≤ ipcPacketMaxDataLength)
    (hn : n ≤ ipcPacketMaxDataLength) (h : UInt8.ofNat m = UInt8.ofNat n) : m = n := by
  rw [← ofNat_toNat_of_le hm, h, ofNat_toNat_of_le hn]

/-- The static variables stand for one receiver only. -/
theorem Represents.unique {ipc : IpcComponent H} {r r' : Receiver} (h : Represents ipc r)
    (h' : Represents ipc r') : r = r' := by
  cases r with
  | hunting half =>
    cases r' with
    | hunting half' =>
      have hindex := h.2.symm.trans h'.2
      cases half <;> cases half' <;> first | rfl | cases hindex
    | length => cases h.1.symm.trans h'.1
    | data expected' payload' => cases h.1.symm.trans h'.1
    | check payload' => cases h.1.symm.trans h'.1
  | length =>
    cases r' with
    | length => rfl
    | hunting half' => cases h.1.symm.trans h'.1
    | data expected' payload' => cases h.1.symm.trans h'.1
    | check payload' => cases h.1.symm.trans h'.1
  | data expected payload =>
    cases r' with
    | data expected' payload' =>
      obtain ⟨_, hp, hlt, hle, hgot⟩ := h
      obtain ⟨_, hp', hlt', hle', hgot'⟩ := h'
      have hparams := hp.symm.trans hp'
      simp only [IpcStateMachineParams.mk.injEq, true_and] at hparams
      obtain rfl := ofNat_inj_of_le hle hle' hparams.2
      have hlength := ofNat_inj_of_le (by omega) (by omega) hparams.1
      rw [hlength, hgot'] at hgot
      rw [hgot]
    | hunting half' => cases h.1.symm.trans h'.1
    | length => cases h.1.symm.trans h'.1
    | check payload' => cases h.1.symm.trans h'.1
  | check payload =>
    cases r' with
    | check payload' =>
      obtain ⟨_, hp, hadmits, hgot⟩ := h
      obtain ⟨_, hp', hadmits', hgot'⟩ := h'
      have hparams := hp.symm.trans hp'
      simp only [IpcStateMachineParams.mk.injEq, true_and] at hparams
      have hlength := ofNat_inj_of_le hadmits.2 hadmits'.2 hparams
      rw [hlength, hgot'] at hgot
      rw [hgot]
    | hunting half' => cases h.1.symm.trans h'.1
    | length => cases h.1.symm.trans h'.1
    | data expected' payload' => cases h.1.symm.trans h'.1

/-- The packets put into the queue are those among the blocks that the bytes consist of, in
order and each once, and the static variables stand for the block begun. -/
theorem received_iff_blocks (handler : Option H) (bytes : List UInt8) (r : Receiver)
    (puts : List IpcReceivedDataPacketPostProcessingParams) :
    let received := (ipcInit .initial handler).1.receive bytes
    Represents received.1 r ∧ received.2 = puts ↔
      ∃ (blocks : List (List UInt8 × Option Packet)) (rest : List UInt8),
        bytes = (blocks.map Prod.fst).flatten ++ rest ∧
          (∀ block ∈ blocks, Block ipcFormat block.1 block.2) ∧ Begun ipcFormat r rest ∧
          puts = (blocks.filterMap Prod.snd).map postProcessingParams := by
  intro received
  have hr : Represents (ipcInit (.initial (H := H)) handler).1 (.hunting false) := ⟨rfl, rfl⟩
  obtain ⟨hrepresents, hputs⟩ := receive_follows hr bytes
  change Represents received.1 _ at hrepresents
  change received.2 = _ at hputs
  constructor
  · rintro ⟨hr', hreceived⟩
    obtain ⟨blocks, rest, hbytes, hblocks, hbegun, hpackets⟩ :=
      (feed_iff_blocks bytes r ((Receiver.hunting false).feed ipcFormat bytes).2).mp
        (Prod.ext (hrepresents.unique hr') rfl)
    refine ⟨blocks, rest, hbytes, hblocks, hbegun, ?_⟩
    rw [← hreceived, hputs, hpackets]
  · rintro ⟨blocks, rest, hbytes, hblocks, hbegun, rfl⟩
    have hfeed := (feed_iff_blocks bytes r _).mpr ⟨blocks, rest, hbytes, hblocks, hbegun, rfl⟩
    rw [hfeed] at hrepresents hputs
    exact ⟨hrepresents, hputs⟩

end ClosedLoopStepper.Ipc
