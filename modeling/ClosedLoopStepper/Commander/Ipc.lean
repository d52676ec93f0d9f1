import ClosedLoopStepper.Ipc.Receiver

/-! The commander's end of the link. A byte string that the port has received is read
from its front. -/
namespace ClosedLoopStepper.Commander
open Common Foundations Foundations.Framing Ipc

def ipcPacketMaxTransactionSize : Nat := 0xFF
def ipcPacketHeaderParam : List UInt8 := [0xA5, 0x5A]
def ipcPacketHeaderParamSize : Nat := 2
def ipcPacketDataLengthParamSize : Nat := 1
def ipcPacketDataCrcParamSize : Nat := 1

def ipcPacketMaxDataLength : Nat :=
  ipcPacketMaxTransactionSize - ipcPacketHeaderParamSize - ipcPacketDataLengthParamSize -
    ipcPacketDataCrcParamSize

def calculateCrc (dataPacket : List UInt8) : UInt8 :=
  dataPacket.foldl (fun xorCrc data => xorCrc ^^^ data) 0

/-- The bytes written; `none` when `bytes` raises on a length that is no byte. -/
def sendDataPacket (dataPacket : List UInt8) : Option (List UInt8) :=
  if dataPacket.length < 256 then
    some (ipcPacketHeaderParam ++ [UInt8.ofNat dataPacket.length] ++ dataPacket ++
      [calculateCrc dataPacket])
  else none

/-- A read without a timeout: `none` while fewer bytes than asked for have arrived. -/
def read (size : Nat) (port : List UInt8) : Option (List UInt8 × List UInt8) :=
  if size ≤ port.length then some (port.take size, port.drop size) else none

def fromBytes (bytes : List UInt8) : Nat := bytes.foldr (fun b rest => b.toNat + 256 * rest) 0

/-- The returned value and what is left in the port; `none` while a read is blocked. -/
def receiveDataPacket (port : List UInt8) : Option (Option (List UInt8) × List UInt8) := do
  let (header, port) ← read ipcPacketHeaderParamSize port
  if header ≠ ipcPacketHeaderParam then
    return (none, port)
  let (lengthParam, port) ← read ipcPacketDataLengthParamSize port
  let expectedDataLength := fromBytes lengthParam
  if expectedDataLength > ipcPacketMaxDataLength then
    return (none, port)
  let (receivedDataPacket, port) ← read expectedDataLength port
  let (crcParam, port) ← read ipcPacketDataCrcParamSize port
  if fromBytes crcParam ≠ (calculateCrc receivedDataPacket).toNat then
    return (none, port)
  return (some receivedDataPacket, port)

def receiveDataPackets : Nat → List UInt8 → Option (List (Option (List UInt8)) × List UInt8)
  | 0, port => some ([], port)
  | calls + 1, port => do
    let (received, port) ← receiveDataPacket port
    let (rest, port) ← receiveDataPackets calls port
    return (received :: rest, port)

/-- What the commander sends for a payload of an admitted length is its frame. -/
theorem sendDataPacket_frame {payload : List UInt8} (h : ipcFormat.Admits payload) :
    sendDataPacket payload = some (ipcFormat.frame payload) := by
  have hle : payload.length ≤ 251 := h.2
  rw [sendDataPacket, if_pos (by omega)]
  rfl

theorem read_append {size : Nat} {bytes : List UInt8} (h : bytes.length = size)
    (rest : List UInt8) : read size (bytes ++ rest) = some (bytes, rest) := by
  subst h
  rw [read, if_pos (by rw [List.length_append]; exact Nat.le_add_right _ _), List.take_left,
    List.drop_left]

/-- What is read of a frame at the front of the port, for any length that a byte holds and
any checksum byte. -/
theorem receiveDataPacket_bytes {payload : List UInt8} (hlength : payload.length < 256)
    (check : UInt8) (rest : List UInt8) :
    receiveDataPacket (ipcFormat.lsb :: ipcFormat.msb :: UInt8.ofNat payload.length ::
        (payload ++ check :: rest)) =
      some (if ipcPacketMaxDataLength < payload.length then (none, payload ++ check :: rest)
        else if check = calculateCrc payload then (some payload, rest) else (none, rest)) := by
  have htoNat : (UInt8.ofNat payload.length).toNat = payload.length := by
    rw [UInt8.toNat_ofNat', Nat.mod_eq_of_lt hlength]
  have hport : ipcFormat.lsb :: ipcFormat.msb :: UInt8.ofNat payload.length ::
      (payload ++ check :: rest) = ipcPacketHeaderParam ++
        ([UInt8.ofNat payload.length] ++ (payload ++ ([check] ++ rest))) := rfl
  have hfrom (b : UInt8) : fromBytes [b] = b.toNat := rfl
  have hheader : ipcPacketHeaderParam.length = ipcPacketHeaderParamSize := rfl
  have hone (b : UInt8) : [b].length = ipcPacketDataLengthParamSize := rfl
  have hcrc (b : UInt8) : [b].length = ipcPacketDataCrcParamSize := rfl
  rw [hport, receiveDataPacket, read_append hheader]
  simp only [Option.bind_eq_bind, Option.bind_some, ne_eq, not_true_eq_false, if_false]
  rw [read_append (hone _)]
  simp only [Option.bind_some, hfrom, htoNat, gt_iff_lt]
  by_cases hlong : ipcPacketMaxDataLength < payload.length
  · rw [if_pos hlong, if_pos hlong]
    rfl
  · rw [if_neg hlong, if_neg hlong, read_append rfl]
    simp only [Option.bind_some]
    rw [read_append (hcrc _)]
    simp only [Option.bind_some, hfrom, UInt8.toNat_inj]
    by_cases hcheck : check = calculateCrc payload
    · rw [if_neg (not_not.mpr hcheck), if_pos hcheck]
      rfl
    · rw [if_pos hcheck, if_neg hcheck]
      rfl

/-- A frame at the front of the port is returned as its payload. -/
theorem receiveDataPacket_frame {payload : List UInt8} (h : ipcFormat.Admits payload)
    (rest : List UInt8) :
    receiveDataPacket (ipcFormat.frame payload ++ rest) = some (some payload, rest) := by
  have hle : payload.length ≤ 251 := h.2
  have hshort : ¬ ipcPacketMaxDataLength < payload.length := Nat.not_lt.mpr hle
  have hlength : payload.length < 256 := by omega
  have hbytes := receiveDataPacket_bytes hlength (ipcFormat.checksum payload) rest
  have hcheck : ipcFormat.checksum payload = calculateCrc payload := rfl
  rw [if_neg hshort, if_pos hcheck] at hbytes
  rw [Format.frame, List.cons_append, List.cons_append, List.cons_append, List.append_assoc]
  exact hbytes

/-- Frames one after another are returned one call after another. -/
theorem receiveDataPackets_frames {payloads : List (List UInt8)}
    (h : ∀ p ∈ payloads, ipcFormat.Admits p) :
    receiveDataPackets payloads.length (payloads.flatMap ipcFormat.frame) =
      some (payloads.map some, []) := by
  induction payloads with
  | nil => rfl
  | cons p rest ih =>
    rw [List.forall_mem_cons] at h
    rw [List.flatMap_cons, List.length_cons, receiveDataPackets, receiveDataPacket_frame h.1]
    simp [ih h.2]

end ClosedLoopStepper.Commander
