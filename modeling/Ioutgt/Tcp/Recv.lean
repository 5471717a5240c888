import Ioutgt.Nvme.Pdu
import Ioutgt.Tcp.Queue
import Ioutgt.Uring.BufRing

/-!
# The receive path's phases

PDU routing, payload reassembly (in-capsule and R2T-solicited H2C) and data-digest verification.
The bytes handed to a phase are the unconsumed part of the current receive window; each function
returns how many of them it took.
-/

namespace Ioutgt.Tcp

open Lib Ioutgt.Core Ioutgt.Nvme Ioutgt.Uring

def mdtsBytes : Nat := 128 * 1024

inductive RecvEnd where
  | io
  | term (e : PduError)
  | hostTerm (fes fei : Nat)
  | closed
  deriving DecidableEq, Repr

def RecvEnd.termFes (fes : Nat) : RecvEnd := .term { fes, fei := 0 }

inductive PayloadKind where
  | inCapsule
  | h2c (last : Bool) (length : Nat)
  deriving DecidableEq, Repr

structure DataPhase where
  tag : Nat
  base : Nat
  remaining : Nat
  crc : UInt32
  ddgst : Bool
  kind : PayloadKind
  /-- The slot's data already is this payload's region of the recv ring: no copy. -/
  retained : Bool
  deriving DecidableEq, Repr

structure DdgstPhase where
  tag : Nat
  expected : UInt32
  have_ : List UInt8
  kind : PayloadKind
  deriving DecidableEq, Repr

inductive RecvPhase where
  | header
  | data (d : DataPhase)
  | ddgst (d : DdgstPhase)
  deriving DecidableEq, Repr

/-! ## Payload and digest -/

/-- Payload for this PDU fully received (and digest-verified): advance the slot; submit the
command once the whole transfer is present. -/
def finishPayload (q : NvmeTcpQueue) (tag : Nat) (kind : PayloadKind) :
    Checked RecvEnd NvmeTcpQueue := do
  let s ← q.slots.slot tag
  match kind with
  | .inCapsule => q.submit tag s.cmd
  | .h2c last length =>
    let done ← Checked.add 32 s.recvOffset length
    let q ← q.modifySlot tag ({ · with recvOffset := done })
    if done = s.dataLen then q.submit tag s.cmd
    -- the host claims the transfer is over but bytes are missing
    else if last then .raise (.termFes Fes.dataOutOfRange)
    else return q

namespace DataPhase

def total (d : DataPhase) (q : NvmeTcpQueue) : Checked RecvEnd Nat :=
  match d.kind with
  | .inCapsule => do
    let s ← q.slots.slot d.tag
    return s.dataLen
  | .h2c _ length => return length

def dest (d : DataPhase) (q : NvmeTcpQueue) : Checked RecvEnd Nat := do
  let total ← d.total q
  let done ← Checked.sub total d.remaining
  Checked.add 32 d.base done

def finish (d : DataPhase) (q : NvmeTcpQueue) : Checked RecvEnd (NvmeTcpQueue × RecvPhase) :=
  if d.ddgst then
    return (q, .ddgst { tag := d.tag, expected := d.crc, have_ := [], kind := d.kind })
  else do
    let q ← finishPayload q d.tag d.kind
    return (q, .header)

def copy (d : DataPhase) (q : NvmeTcpQueue) (bs : List UInt8) : Checked RecvEnd NvmeTcpQueue := do
  let dest ← d.dest q
  let s ← q.slots.slot d.tag
  let data ← s.data.writeAt dest bs
  q.modifySlot d.tag ({ · with data })

/-- Retained payloads already live in the slot buffer (it is the recv ring sub-buffer): skip the
copy. -/
def store (d : DataPhase) (q : NvmeTcpQueue) (bs : List UInt8) : Checked RecvEnd NvmeTcpQueue :=
  if d.retained then .ok q else d.copy q bs

/-- Take payload bytes out of the recv window; the next phase once this PDU's payload has fully
arrived. -/
def advance (d : DataPhase) (q : NvmeTcpQueue) (slice : List UInt8) :
    Checked RecvEnd (NvmeTcpQueue × Nat × RecvPhase) := do
  let take := min d.remaining slice.length
  let q ← d.store q (slice.take take)
  let crc := if d.ddgst then crc32cAppend d.crc (slice.take take) else d.crc
  let d := { d with crc, remaining := d.remaining - take }
  if d.remaining > 0 then return (q, take, .data d)
  else
    let (q, phase) ← d.finish q
    return (q, take, phase)

end DataPhase

/-- Accumulate digest bytes; on the 4th, verify and finish the payload. A mismatch fails the
command but keeps the connection. -/
def DdgstPhase.advance (d : DdgstPhase) (q : NvmeTcpQueue) (slice : List UInt8) :
    Checked RecvEnd (NvmeTcpQueue × Nat × RecvPhase) := do
  let want ← Checked.sub 4 d.have_.length
  let take := min want slice.length
  let d := { d with have_ := d.have_ ++ slice.take take }
  if d.have_.length < 4 then return (q, take, .ddgst d)
  else if le d.have_ ≠ d.expected.toNat then
    let s ← q.slots.slot d.tag
    let (sqhd, q) ← q.advanceSqhd
    let cqe := Cqe.new 0 sqhd q.cfg.qid s.cmd.cid (Status.dataXferError ||| Status.dnr)
    let q ← q.completeReceiving d.tag cqe
    return (q, take, .header)
  else
    let q ← finishPayload q d.tag d.kind
    return (q, take, .header)

/-! ## Slot data and the receive ring -/

/-- Where received bytes come from: a scratch buffer, or the connection's own ring. -/
inductive Reader where
  | classic
  | ring (m : RingMode)

/-- The unconsumed part of the current receive window: bytes of the scratch buffer, or a region of
a ring sub-buffer. -/
inductive Window where
  | scratch (bs : List UInt8)
  | ring (bid off len : Nat)
  deriving DecidableEq

structure Link where
  queue : NvmeTcpQueue
  reader : Reader

namespace Link

variable {ε : Type}

def dropData (l : Link) (d : SlotData) : Checked ε Link :=
  match d, l.reader with
  | .ring bid _ _, .ring m => do
    let ring ← m.ring.release bid
    return { l with reader := .ring { m with ring } }
  | _, _ => return l

def setData (l : Link) (tag : Nat) (data : SlotData) : Checked ε Link := do
  let s ← l.queue.slots.slot tag
  let queue ← l.queue.modifySlot tag ({ · with data })
  { l with queue }.dropData s.data

def releaseTag (l : Link) (tag : Nat) : Checked ε Link := do
  let (data, slots) ← l.queue.slots.releaseTag tag
  { l with queue := { l.queue with slots } }.dropData data

def bytesOf (l : Link) : Window → List UInt8
  | .scratch bs => bs
  | .ring bid off len =>
    match l.reader with
    | .ring m => slice (m.ring.bufs bid).mem off len
    | .classic => []

def dataOf (l : Link) : SlotData → List UInt8
  | .empty => []
  | .leased segs => segs.flatten
  | .ring bid off len => l.bytesOf (.ring bid off len)

/-- Try to retain a write payload in place in the recv ring; `w` starts where the payload does.
Retains only when the whole payload fits in this sub-buffer's remaining capacity. -/
def tryRetainPayload (l : Link) (w : Window) (tag len : Nat) : Checked ε (Link × Bool) :=
  match l.reader, w with
  | .ring m, .ring bid off _ =>
    let cap := m.ring.bufSize
    if off > cap ∨ len > cap - off then return (l, false)
    else do
      let l := { l with reader := .ring { m with ring := m.ring.borrow bid } }
      let l ← l.setData tag (.ring bid off len)
      return (l, true)
  | _, _ => return (l, false)

/-- The buffer an in-capsule payload lands in: retained in place in ring mode, else a lease. -/
def landing (l : Link) (w : Window) (tag len : Nat) (segs : List (List UInt8)) :
    Checked ε (Link × Bool) := do
  let (l, retained) ← l.tryRetainPayload w tag len
  if retained then return (l, true)
  else
    let l ← l.setData tag (.leased segs)
    return (l, false)

/-- Retain an H2CData payload only when this one PDU carries the whole solicited transfer. -/
def retainWhole (l : Link) (w : Window) (tag offset length : Nat) : Checked ε (Link × Bool) := do
  let s ← l.queue.slots.slot tag
  if offset = 0 ∧ length = s.dataLen then l.tryRetainPayload w tag length else return (l, false)

end Link

def Window.drop : Window → Nat → Window
  | .scratch bs, n => .scratch (bs.drop n)
  | .ring bid off len, n => .ring bid (off + n) (len - n)

/-! ## PDU routing -/

/-- This command moves data host→controller (opcode bits 1:0 = 01b) and the host kept it resident
(transport SGL): solicit it. -/
def needsR2t (sqe : Sqe) : Bool :=
  sqe.opcode &&& 0x3 == 0x1 && sqe.dptr.sglType == SglDescriptor.typeTransportDataBlock &&
    decide (sqe.dptr.length > 0)

/-- Validate one H2CData header against its slot's expected reassembly state; returns the target
tag. -/
def validateH2c (q : NvmeTcpQueue) (cid ttag offset length dataLen : Nat) :
    Checked RecvEnd Nat :=
  if ttag ≥ q.cfg.sqsize then .raise (.term { fes := Fes.invalidPduHdr, fei := 10 })
  else do
    let s ← q.slots.slot ttag
    let valid := s.state = .receiving ∧ s.cmd.cid = cid ∧ offset = s.recvOffset ∧
      (offset + length < 2 ^ 32 ∧ offset + length ≤ s.dataLen) ∧ length > 0
    if ¬valid then .raise (.termFes Fes.dataOutOfRange)
    else if dataLen ≠ length then .raise (.term { fes := Fes.invalidPduHdr, fei := 16 })
    else return ttag

/-- A new command capsule, with its tag claimed: route by payload residency — in-capsule data,
host-resident via R2T, or no data. `segs` is the lease the pool hands out if one is asked for. -/
def handleCapsuleCmd (l : Link) (w : Window) (tag : Nat) (segs : List (List UInt8)) (sqe : Sqe)
    (dataLen : Nat) (ddgst : Bool) : Checked RecvEnd (Link × RecvPhase) :=
  if dataLen > 0 then
    if dataLen > mdtsBytes then .raise (.termFes Fes.dataLimitExceeded)
    else do
      let (l, retained) ← l.landing w tag dataLen segs
      let queue ← l.queue.modifySlot tag ({ · with dataLen })
      let queue ← queue.stashCmd tag sqe
      let d : DataPhase :=
        { tag, base := 0, remaining := dataLen, crc := 0, ddgst, kind := .inCapsule, retained }
      return ({ l with queue }, .data d)
  else if needsR2t sqe then
    let length := sqe.dptr.length
    if length > mdtsBytes then .raise (.termFes Fes.dataLimitExceeded)
    else do
      let l ← l.setData tag (.leased segs)
      let queue ← l.queue.modifySlot tag ({ · with dataLen := length, recvOffset := 0 })
      let queue ← queue.stashCmd tag sqe
      -- one R2T for the whole transfer; the host may split it into several H2CData PDUs
      let queue ← queue.solicit tag sqe.cid 0 length
      return ({ l with queue }, .header)
  else do
    let queue ← l.queue.submit tag sqe
    return ({ l with queue }, .header)

/-- What a decoded header leads to: a command that waits for a tag, or payload of a command that
has one. -/
inductive Routed where
  | capsule (sqe : Sqe) (dataLen : Nat) (ddgst : Bool)
  | payload (l : Link) (d : DataPhase)

/-- Route one decoded PDU header. `w` is the rest of the window. -/
def handlePdu (l : Link) (pdu : DecodedPdu) (dataDigest : Bool) (w : Window) :
    Checked RecvEnd Routed :=
  let ddgst := pdu.ddgst && dataDigest
  match pdu.kind with
  | .capsuleCmd sqe => return .capsule sqe pdu.dataLen ddgst
  | .h2cData cid ttag offset length last => do
    let tag ← validateH2c l.queue cid ttag offset length pdu.dataLen
    let (l, retained) ← l.retainWhole w tag offset length
    let kind : PayloadKind := .h2c last length
    return .payload l { tag, base := offset, remaining := length, crc := 0, ddgst, kind, retained }
  | .h2cTerm fes fei => .raise (.hostTerm fes fei)
  | _ => .raise (.termFes Fes.pduSeqErr)

end Ioutgt.Tcp
