import Mathlib.Logic.Function.Basic

/-! The inter-processor communication component: the frames it sends, the byte-driven
receive state machine with its one static buffer, and the deferred check of a packet. -/
namespace ClosedLoopStepper.Ipc
variable {H : Type}

def ipcPacketMaxTransactionSize : Nat := 0xFF
def ipcPacketHeaderParam : Nat := 0x5AA5
def ipcPacketHeaderParamSize : Nat := 2
def ipcPacketDataLengthParamSize : Nat := 1
def ipcPacketDataCrcParamSize : Nat := 1

def ipcPacketMaxDataLength : Nat :=
  ipcPacketMaxTransactionSize - ipcPacketHeaderParamSize - ipcPacketDataLengthParamSize -
    ipcPacketDataCrcParamSize

def headerParamLsb : UInt8 := UInt8.ofNat (ipcPacketHeaderParam % 256)
def headerParamMsb : UInt8 := UInt8.ofNat (ipcPacketHeaderParam / 256)

inductive IpcOperationStatus
  | ok | invalidLength | invalidData
  deriving DecidableEq, Repr

inductive IpcReceptionStatus
  | ok | packetCorrupted
  deriving DecidableEq, Repr

inductive IpcStateMachineState
  | idle | getDataLength | getData | getDataCrc
  deriving DecidableEq, Repr

structure IpcStateMachineParams where
  currentHeaderParamIndex : UInt8
  currentDataOffset : UInt8
  expectedDataLength : UInt8
  deriving DecidableEq, Repr

structure IpcReceivedDataPacketPostProcessingParams where
  receivedDataSize : UInt8
  expectedDataCrc : UInt8
  deriving DecidableEq, Repr

/-- The packed structure as the scheduler copies it, and as its handler reads it. -/
def IpcReceivedDataPacketPostProcessingParams.toBytes
    (params : IpcReceivedDataPacketPostProcessingParams) : List UInt8 :=
  [params.receivedDataSize, params.expectedDataCrc]

def IpcReceivedDataPacketPostProcessingParams.ofBytes (bytes : List UInt8) :
    IpcReceivedDataPacketPostProcessingParams :=
  ⟨bytes.getD 0 0, bytes.getD 1 0⟩

/-- What the packet handler is given; the data pointer is the static buffer itself. -/
structure IpcDataPacketReceivedEventData where
  receptionStatus : IpcReceptionStatus
  pReceivedData : Nat → UInt8
  receivedDataSize : UInt8

/-- The static variables, those of the state machine function included. -/
structure IpcComponent (H : Type) where
  ipcReceivedDataPacketBuffer : Nat → UInt8
  ipcDataPacketReceivedEventHandler : Option H
  ipcStateMachineState : IpcStateMachineState
  ipcStateMachineParams : IpcStateMachineParams

def IpcComponent.initial : IpcComponent H where
  ipcReceivedDataPacketBuffer := fun _ => 0
  ipcDataPacketReceivedEventHandler := none
  ipcStateMachineState := .idle
  ipcStateMachineParams := ⟨0, 0, 0⟩

def ipcInit (ipc : IpcComponent H) (handler : Option H) : IpcComponent H × IpcOperationStatus :=
  ({ ipc with ipcDataPacketReceivedEventHandler := handler }, .ok)

def dataPacketCrc (bytes : List UInt8) : UInt8 := bytes.foldl (fun crc b => crc ^^^ b) 0

/-- The status and the bytes given to `putchar_raw`; `none` is a NULL packet. -/
def ipcSendDataPacket (pDataPacket : Option (Nat → UInt8)) (dataPacketLength : UInt8) :
    IpcOperationStatus × List UInt8 :=
  match pDataPacket with
  | none => (.invalidData, [])
  | some p =>
    if 0 < dataPacketLength.toNat ∧ dataPacketLength.toNat ≤ ipcPacketMaxDataLength then
      let bytes := (List.range dataPacketLength.toNat).map p
      (.ok, headerParamLsb :: headerParamMsb :: dataPacketLength ::
        (bytes ++ [dataPacketCrc bytes]))
    else (.invalidLength, [])

/-- One received byte. The second component is what is put into the scheduler's queue;
its event type is the only one there is. -/
def ipcStateMachineEventHandler (ipc : IpcComponent H) (receivedData : UInt8) :
    IpcComponent H × Option IpcReceivedDataPacketPostProcessingParams :=
  let params := ipc.ipcStateMachineParams
  match ipc.ipcStateMachineState with
  | .idle =>
    if params.currentHeaderParamIndex = 0 then
      if receivedData = headerParamLsb then
        let currentHeaderParamIndex := params.currentHeaderParamIndex + 1
        ({ ipc with ipcStateMachineParams := { params with currentHeaderParamIndex } }, none)
      else (ipc, none)
    else
      ({ ipc with
        ipcStateMachineState :=
          if receivedData = headerParamMsb then .getDataLength else ipc.ipcStateMachineState
        ipcStateMachineParams := { params with currentHeaderParamIndex := 0 } }, none)
  | .getDataLength =>
    if 0 < receivedData.toNat ∧ receivedData.toNat ≤ ipcPacketMaxDataLength then
      ({ ipc with
        ipcStateMachineState := .getData
        ipcStateMachineParams := { params with expectedDataLength := receivedData } }, none)
    else
      ({ ipc with
        ipcStateMachineState := .idle
        ipcStateMachineParams := { params with expectedDataLength := 0 } }, none)
  | .getData =>
    let ipcReceivedDataPacketBuffer := Function.update ipc.ipcReceivedDataPacketBuffer
      params.currentDataOffset.toNat receivedData
    let currentDataOffset := params.currentDataOffset + 1
    if currentDataOffset = params.expectedDataLength then
      ({ ipc with
        ipcReceivedDataPacketBuffer
        ipcStateMachineState := .getDataCrc
        ipcStateMachineParams := { params with currentDataOffset := 0 } }, none)
    else
      ({ ipc with
        ipcReceivedDataPacketBuffer
        ipcStateMachineParams := { params with currentDataOffset } }, none)
  | .getDataCrc =>
    ({ ipc with
      ipcStateMachineState := .idle
      ipcStateMachineParams := { params with expectedDataLength := 0 } },
      some ⟨params.expectedDataLength, receivedData⟩)

def IpcComponent.received (ipc : IpcComponent H) (size : Nat) : List UInt8 :=
  (List.range size).map ipc.ipcReceivedDataPacketBuffer

/-- The deferred check: what the registered handler is called with. The payload is read
from the buffer as it is by now. -/
def ipcReceivedDataPacketPostProcessingHandler (ipc : IpcComponent H)
    (params : IpcReceivedDataPacketPostProcessingParams) : IpcDataPacketReceivedEventData where
  receptionStatus :=
    if dataPacketCrc (ipc.received params.receivedDataSize.toNat) = params.expectedDataCrc then .ok
    else .packetCorrupted
  pReceivedData := ipc.ipcReceivedDataPacketBuffer
  receivedDataSize := params.receivedDataSize

end ClosedLoopStepper.Ipc
