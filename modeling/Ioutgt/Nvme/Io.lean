import Ioutgt.Core.SlotQ
import Ioutgt.Lib.Prog
import Ioutgt.Nvme.Admin

/-!
# IO command execution

Read, Write, Flush, Write Zeroes and DSM. By the time a command reaches a slot task the transport
has gathered all H2C payload into the slot buffer, so the handlers validate, call the backend and
report status. Each is a program over the calls it awaits.
-/

namespace Ioutgt.Nvme

open Lib Ioutgt.Core

/-! ## Command views -/

structure RwCommand where
  slba : Nat
  nlb : Nat
  fua : Bool
  deriving DecidableEq, Repr

def RwCommand.parse (sqe : Sqe) : RwCommand where
  slba := sqe.cdw10 ||| (sqe.cdw11 <<< 32)
  nlb := sqe.cdw12 &&& 0xFFFF
  fua := sqe.cdw12 &&& (1 <<< 30) ≠ 0

structure DsmRange where
  cattr : Nat
  nlb : Nat
  slba : Nat
  deriving DecidableEq, Repr

def DsmRange.size : Nat := 16

def DsmRange.readFromBytes (bs : List UInt8) : DsmRange where
  cattr := leAt bs 0 4
  nlb := leAt bs 4 4
  slba := leAt bs 8 8

/-- What a slot task finds in its slot: the contents of the buffer's segments, and how many payload
bytes the transport delivered into them. -/
structure SlotView where
  segs : List (List UInt8)
  dataLen : Nat
  /-- The transport delivers only into memory it has leased or retained. -/
  covered : dataLen ≤ segs.flatten.length

def noPayload : SlotView := { segs := [], dataLen := 0, covered := Nat.le_refl 0 }

/-! ## What the handlers await -/

inductive IoOp (B : Type) where
  | lease (len : Nat)
  | readSegs (backend : B) (slba : Nat) (segs : List (List UInt8)) (total : Nat)
  | writeSegs (backend : B) (slba : Nat) (segs : List (List UInt8)) (total : Nat)
  | flush (backend : B)
  | discard (backend : B) (ranges : List LbaRange)
  | writeZeroes (backend : B) (range : LbaRange)

abbrev IoOp.Res {B : Type} : IoOp B → Type
  | .lease len => { segs : List (List UInt8) // SlotData.LeaseOk len segs }
  | .readSegs _ _ _ total => Except BackendError { bytes : List UInt8 // bytes.length = total }
  | _ => Except BackendError Unit

abbrev IoProg (B : Type) : Type → Type := Prog (IoOp B) IoOp.Res

namespace Io

variable {B : Type} [Backend B]

def leaseAwait (len : Nat) : IoProg B { segs : List (List UInt8) // SlotData.LeaseOk len segs } :=
  Prog.ask (IoOp.lease len)

def readSegs (backend : B) (slba : Nat) (segs : List (List UInt8)) (total : Nat) :
    IoProg B (Except BackendError { bytes : List UInt8 // bytes.length = total }) :=
  Prog.ask (IoOp.readSegs backend slba segs total)

def writeSegs (backend : B) (slba : Nat) (segs : List (List UInt8)) (total : Nat) :
    IoProg B (Except BackendError Unit) :=
  Prog.ask (IoOp.writeSegs backend slba segs total)

def flush (backend : B) : IoProg B (Except BackendError Unit) := Prog.ask (IoOp.flush backend)

def discard (backend : B) (ranges : List LbaRange) : IoProg B (Except BackendError Unit) :=
  Prog.ask (IoOp.discard backend ranges)

def writeZeroes (backend : B) (range : LbaRange) : IoProg B (Except BackendError Unit) :=
  Prog.ask (IoOp.writeZeroes backend range)

def nvmeStatus : BackendError → Nat
  | .outOfRange => Status.lbaRange ||| Status.dnr
  | .noSpace => Status.capExceeded ||| Status.dnr
  | .unsupported => Status.invalidOpcode ||| Status.dnr
  | .io _ => Status.internal ||| Status.dnr

def mapBackend (result : Except BackendError Unit) : Outcome :=
  match result with
  | .ok () => .ofStatus 0 Status.success
  | .error e => .ofStatus 0 (nvmeStatus e)

def checkedLen (backend : B) (sqe : Sqe) : Checked Nat (RwCommand × Nat) := do
  let rw := RwCommand.parse sqe
  let nlb ← Checked.add 64 rw.nlb 1
  let len ← Checked.shl 64 nlb (Backend.blockShift backend)
  if len > mdtsBytes then .raise (Status.invalidField ||| Status.dnr)
  -- 24 bits: the keyed descriptor's key starts in the top byte
  else if sqe.dptr.length &&& 0x00FFFFFF ≠ len then
    .raise (Status.dataSglLenInvalid ||| Status.dnr)
  else
    match checkRange (Backend.nrBlocks backend) rw.slba nlb with
    | .error e => .raise (nvmeStatus e)
    | .ok () => return (rw, len % 2 ^ 32)

def read (backend : B) (sqe : Sqe) : IoProg B Outcome := do
  match ← Prog.ofChecked (checkedLen backend sqe) with
  | .error code => return .ofStatus 0 code
  | .ok (rw, len) =>
    let segs ← leaseAwait len
    match ← readSegs backend rw.slba segs.1 len with
    | .ok bytes => return { Outcome.ofStatus 0 Status.success with dataLen := len, data := bytes.1 }
    | .error e => return .ofStatus 0 (nvmeStatus e)

def write (backend : B) (slot : SlotView) (sqe : Sqe) : IoProg B Outcome := do
  match ← Prog.ofChecked (checkedLen backend sqe) with
  | .error code => return .ofStatus 0 code
  | .ok (rw, len) =>
    if slot.dataLen ≠ len then return .ofStatus 0 (Status.dataXferError ||| Status.dnr)
    else
      match ← writeSegs backend rw.slba slot.segs len with
      | .error e => return .ofStatus 0 (nvmeStatus e)
      | .ok () =>
        if rw.fua then
          let result ← flush backend
          return mapBackend result
        else return .ofStatus 0 Status.success

def dsmRanges (bytes : List UInt8) (nr : Nat) : List LbaRange :=
  (List.range nr).map fun i =>
    let raw := DsmRange.readFromBytes (slice bytes (i * DsmRange.size) DsmRange.size)
    { slba := raw.slba, nlb := raw.nlb }

def dsm (backend : B) (slot : SlotView) (sqe : Sqe) : IoProg B Outcome := do
  let deallocate := sqe.cdw11 &&& (1 <<< 2) ≠ 0
  let nr := (sqe.cdw10 &&& 0xFF) + 1
  let needed := nr * DsmRange.size
  if slot.dataLen < needed then return .ofStatus 0 (Status.dataSglLenInvalid ||| Status.dnr)
  else if ¬deallocate then return .ofStatus 0 Status.success
  else
    let bytes := slot.segs.flatten.take needed
    let result ← discard backend (dsmRanges bytes nr)
    return mapBackend result

def serve (backend : B) (slot : SlotView) (sqe : Sqe) : IoProg B Outcome := do
  if sqe.opcode = IoOpcode.flush then
    let result ← flush backend
    return mapBackend result
  else if sqe.opcode = IoOpcode.read then read backend sqe
  else if sqe.opcode = IoOpcode.write then write backend slot sqe
  else if sqe.opcode = IoOpcode.writeZeroes then
    let rw := RwCommand.parse sqe
    let nlb ← Prog.check (Checked.add 32 rw.nlb 1)
    let result ← writeZeroes backend { slba := rw.slba, nlb := nlb }
    return mapBackend result
  else if sqe.opcode = IoOpcode.dsm then dsm backend slot sqe
  else return .ofStatus 0 (Status.invalidOpcode ||| Status.dnr)

/-- Execute one IO-queue command: the namespace is looked up before anything is awaited. -/
def execute (io : IoState (Volume B)) (tables : Admin.Tables B) (slot : SlotView) (sqe : Sqe) :
    IoProg B Outcome × IoState (Volume B) :=
  match io.subsys with
  | none => (return .ofStatus 0 (Status.cmdSeqError ||| Status.dnr), io)
  | some subsys =>
    let current := tables subsys.nqn
    let (cache, table) := io.nsCache.get current.generation current.namespaces
    let io := { io with nsCache := cache }
    match table.get sqe.nsid with
    | none => (return .ofStatus 0 (Status.invalidNs ||| Status.dnr), io)
    | some ns => (serve ns.backend.backend slot sqe, io)

end Io

end Ioutgt.Nvme
