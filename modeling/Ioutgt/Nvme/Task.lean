import Ioutgt.Nvme.Execute

/-!
# The handlers with their completion entries

`ConnCtx::cqe` advances the SQ head, and the handlers call it themselves. Here a handler is a program
over what its slot task does: the calls it awaits, at which other tasks run, and advancing the head,
which is not awaited. The handlers that are plain functions are one stretch of code
with no await in it, so they are taken over from the dispatcher with their entry built at the end.
-/

namespace Ioutgt.Nvme

open Lib Ioutgt.Core

inductive TaskOp (B : Type) where
  | io (op : IoOp B)
  | event
  | advanceSqhd

abbrev TaskOp.Res {B : Type} : TaskOp B → Type
  | .io op => IoOp.Res op
  | .event => Nat
  | .advanceSqhd => Nat

abbrev TaskProg (B : Type) : Type → Type := Prog (TaskOp B) TaskOp.Res

structure Completed where
  cqe : Cqe
  dataLen : Nat
  deriving DecidableEq, Repr

namespace Task

variable {B : Type}

def awaitIo (op : IoOp B) : TaskProg B (IoOp.Res op) := Prog.ask (TaskOp.io op)

def awaitEvent : TaskProg B Nat := Prog.ask TaskOp.event

def cqe (qid result cid status : Nat) : TaskProg B Cqe := do
  let head ← Prog.ask TaskOp.advanceSqhd
  return Cqe.new result head qid cid status

def status (qid result cid code : Nat) : TaskProg B Completed := do
  let entry ← cqe qid result cid code
  return { cqe := entry, dataLen := 0 }

def withData (qid cid dataLen : Nat) : TaskProg B Completed := do
  let entry ← cqe qid 0 cid Status.success
  return { cqe := entry, dataLen }

def ofOutcome (qid cid : Nat) (out : Outcome) : TaskProg B Completed := do
  let entry ← cqe qid out.result cid out.status
  return { cqe := { entry with rsvd := out.rsvd }, dataLen := out.dataLen }

def mapBackend (qid cid : Nat) (result : Except BackendError Unit) (dataLen : Nat) :
    TaskProg B Completed :=
  match result with
  | .ok () => withData qid cid dataLen
  | .error e => status qid 0 cid (Io.nvmeStatus e)

section Io

variable [Backend B] (qid : Nat)

def read (backend : B) (sqe : Sqe) : TaskProg B Completed := do
  match ← Prog.ofChecked (Io.checkedLen backend sqe) with
  | .error code => status qid 0 sqe.cid code
  | .ok (rw, len) =>
    let segs ← awaitIo (.lease len)
    let result ← awaitIo (.readSegs backend rw.slba segs.1 len)
    mapBackend qid sqe.cid (result.map fun _ => ()) len

def write (backend : B) (slot : SlotView) (sqe : Sqe) : TaskProg B Completed := do
  match ← Prog.ofChecked (Io.checkedLen backend sqe) with
  | .error code => status qid 0 sqe.cid code
  | .ok (rw, len) =>
    if slot.dataLen ≠ len then status qid 0 sqe.cid (Status.dataXferError ||| Status.dnr)
    else
      let result ← awaitIo (.writeSegs backend rw.slba slot.segs len)
      match result with
      | .ok () =>
        if rw.fua then
          let result ← awaitIo (.flush backend)
          mapBackend qid sqe.cid result 0
        else mapBackend qid sqe.cid (.ok ()) 0
      | .error e => mapBackend qid sqe.cid (.error e) 0

def dsm (backend : B) (slot : SlotView) (sqe : Sqe) : TaskProg B Completed := do
  let deallocate := sqe.cdw11 &&& (1 <<< 2) ≠ 0
  let nr := (sqe.cdw10 &&& 0xFF) + 1
  let needed := nr * DsmRange.size
  if slot.dataLen < needed then status qid 0 sqe.cid (Status.dataSglLenInvalid ||| Status.dnr)
  else if ¬deallocate then status qid 0 sqe.cid Status.success
  else
    let bytes := slot.segs.flatten.take needed
    let result ← awaitIo (.discard backend (Io.dsmRanges bytes nr))
    mapBackend qid sqe.cid result 0

def serve (backend : B) (slot : SlotView) (sqe : Sqe) : TaskProg B Completed := do
  if sqe.opcode = IoOpcode.flush then
    let result ← awaitIo (.flush backend)
    mapBackend qid sqe.cid result 0
  else if sqe.opcode = IoOpcode.read then read qid backend sqe
  else if sqe.opcode = IoOpcode.write then write qid backend slot sqe
  else if sqe.opcode = IoOpcode.writeZeroes then
    let rw := RwCommand.parse sqe
    let nlb ← Prog.check (Checked.add 32 rw.nlb 1)
    let result ← awaitIo (.writeZeroes backend { slba := rw.slba, nlb := nlb })
    mapBackend qid sqe.cid result 0
  else if sqe.opcode = IoOpcode.dsm then dsm qid backend slot sqe
  else status qid 0 sqe.cid (Status.invalidOpcode ||| Status.dnr)

def ioExecute (io : IoState (Volume B)) (tables : Admin.Tables B) (slot : SlotView) (sqe : Sqe) :
    TaskProg B Completed × IoState (Volume B) :=
  match io.subsys with
  | none => (status qid 0 sqe.cid (Status.cmdSeqError ||| Status.dnr), io)
  | some subsys =>
    let current := tables subsys.nqn
    let (cache, table) := io.nsCache.get current.generation current.namespaces
    let io := { io with nsCache := cache }
    match table.get sqe.nsid with
    | none => (status qid 0 sqe.cid (Status.invalidNs ||| Status.dnr), io)
    | some ns => (serve qid ns.backend.backend slot sqe, io)

def ofReply {ε : Type} (cid : Nat) : Reply B → Checked ε (TaskProg B Completed)
  | .done out => return ofOutcome qid cid out
  | .parked => return do
      let result ← awaitEvent
      status qid result cid Status.success
  -- only a command of an IO queue calls a backend
  | .running _ => .abort .unreachable

def execute {ε : Type} (ctx : ConnCtx (Volume B)) (tables : Admin.Tables B) (registry : Registry)
    (now : Nat) (slot : SlotView) (sqe : Sqe) :
    Checked ε (TaskProg B Completed × ConnCtx (Volume B) × Registry) :=
  match ctx.role, decide (sqe.opcode = AdminOpcode.fabrics) with
  | .io io, false =>
    let (handler, io) := ioExecute ctx.qid io tables slot sqe
    return (handler, { ctx with role := .io io }, registry)
  | _, _ => do
    let (reply, ctx, registry) ← Nvme.execute ctx tables registry now slot sqe
    return (← ofReply ctx.qid sqe.cid reply, ctx, registry)

end Io

end Task

end Ioutgt.Nvme
