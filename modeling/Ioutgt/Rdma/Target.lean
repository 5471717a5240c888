import Ioutgt.Lib.Run
import Ioutgt.Nvme.Admin
import Ioutgt.Rdma.Sgl
import Ioutgt.Tcp.Queue

/-!
# The NVMe/RDMA queue after its Connect

The reap loop, the slot tasks and the NIC of one queue pair. Receive buffers are recycled: the NIC
writes a capsule at the start of a posted buffer and leaves the rest of it as it was. The rounds of
the reap loop are actions of their own, so a run is any interleaving of them with the NIC and the
slot tasks; `processCqes` groups them into polls. A failed completion or a fatal error ends the queue
and the run with it.

The scatter/gather runs of one transfer are one work request here: only the last is signaled.
-/

namespace Ioutgt.Rdma

open Lib Ioutgt.Core Ioutgt.Nvme Ioutgt.Tcp

def sqeLen : Nat := 64

def icdLen : Nat := rdmaInlineDataSize

def capsuleLen : Nat := sqeLen + icdLen

inductive Fatal where
  /-- "command overflow: host exceeded negotiated queue depth" -/
  | commandOverflow
  deriving DecidableEq, Repr

/-- A successful work completion, by the kind and the low bits of its id. -/
inductive Wc where
  | recv (idx : Nat)
  | read (tag : Nat)
  | write (tag : Nat)
  | send (tag : Nat)
  deriving DecidableEq, Repr

structure PendingRead where
  tag : Nat
  len : Nat
  rkey : Nat
  addr : Nat
  deriving DecidableEq, Repr

inductive SendWr where
  | read (r : PendingRead)
  | write (tag : Nat)
  | send (tag : Nat)
  deriving DecidableEq, Repr

structure RdmaResp where
  tag : Nat
  cmd : Sqe
  cqe : Cqe
  dataLen : Nat
  deriving DecidableEq, Repr

/-- A command as its slot task takes it: with the first `data_len` bytes of its buffer. -/
structure Handed where
  tag : Nat
  cmd : Sqe
  data : List UInt8
  deriving DecidableEq, Repr

/-- What the pool answers when asked for `len` bytes now. -/
structure Pool where
  alloc : Nat → Option (List (List UInt8))
  fits : ∀ len segs, alloc len = some segs → SlotData.LeaseOk len segs

structure RdmaQueue where
  cfg : QueueCfg
  sqhd : Nat
  slots : SlotArray Sqe
  recvBuf : Nat → Buf capsuleLen
  posted : List Nat
  /-- The length the NIC reported for the last capsule in each buffer. The reap loop keeps only the
  id and the status of a completion. -/
  byteLen : Nat → Nat
  cq : List Wc
  sq : List SendWr
  inflight : Nat → Nat
  /-- Everything ever pushed on the response list, and how much of it was posted. -/
  responses : List RdmaResp
  answered : Nat
  pendingRead : Nat → Sqe
  readBatch : List PendingRead
  parked : List (Sqe × Option Nat)
  poolWait : List (Nat × Sqe × Option Nat)
  handed : List Handed

@[simp] def segsOf : SlotData → List (List UInt8)
  | .leased segs => segs
  | .empty | .ring .. => []

def payload (s : Slot Sqe) : List UInt8 := (segsOf s.data).flatten.take s.dataLen

/-- Offset and length of an in-capsule payload, or the status its descriptor is refused with. -/
def inlineSpan (sqe : Sqe) : Except Nat (Nat × Nat) :=
  let off := (parseInlineSgl sqe).1
  let len := (parseInlineSgl sqe).2
  if byteAt sqe.asBytes sglTypeOffset ≠ inlineSglType then
    .error (Status.sglInvalidType ||| Status.dnr)
  -- the sum saturates at 64 bits
  else if len = 0 ∨ min (off + len) (2 ^ 64 - 1) > icdLen then
    .error (Status.dataSglLenInvalid ||| Status.dnr)
  else .ok (off, len)

/-- The command's payload is in its capsule, which it keeps until the payload is copied out. -/
def heldInline {B : Type} (role : Role B) (sqe : Sqe) : Bool :=
  hostDataIn role sqe.opcode && (byteAt sqe.asBytes sglTypeOffset >>> 4 != keyedSglTypeHi)

namespace RdmaQueue

variable {B ε : Type}

def primed (cfg : QueueCfg) : RdmaQueue where
  cfg := cfg
  sqhd := 0
  slots := SlotArray.new cfg.sqsize Sqe.zeroed
  recvBuf := fun _ => Buf.zero capsuleLen
  posted := List.range cfg.sqsize
  byteLen := fun _ => 0
  cq := []
  sq := []
  inflight := fun _ => 0
  responses := []
  answered := 0
  pendingRead := fun _ => Sqe.zeroed
  readBatch := []
  parked := []
  poolWait := []
  handed := []

/-- What `bootstrap` leaves: the Connect capsule's buffer is posted again, and the response to it, whose
slot has the first tag, is on the send queue. -/
def bootstrapped (cfg : QueueCfg) (connect : List UInt8) : RdmaQueue :=
  let buf := ((Buf.zero capsuleLen).write 0 connect).getD (Buf.zero capsuleLen)
  let slots := SlotArray.new cfg.sqsize Sqe.zeroed
  let cmd := Sqe.readFromBytes (slice buf.bytes 0 sqeLen)
  { primed cfg with
    sqhd := if cfg.sqhdDisabled then 0 else 1 % cfg.sqsize
    slots := { slots with freeTags := slots.freeTags.tail }.put 0
      { Slot.new cmd with state := .responding }
    recvBuf := Function.update (fun _ => Buf.zero capsuleLen) 0 buf
    posted := (List.range cfg.sqsize).tail ++ [0]
    byteLen := Function.update (fun _ => 0) 0 connect.length
    inflight := Function.update (fun _ => 0) 0 1
    sq := [.send 0] }

def recvSlice (q : RdmaQueue) (idx : Nat) : List UInt8 := (q.recvBuf idx).bytes

def postRecv (q : RdmaQueue) (idx : Nat) : RdmaQueue := { q with posted := q.posted ++ [idx] }

def advanceSqhd (q : RdmaQueue) : Checked ε (Nat × RdmaQueue) :=
  if q.cfg.sqhdDisabled then return (0, q)
  else do
    let next ← Checked.add 16 q.sqhd 1
    let next := next % q.cfg.sqsize
    return (next, { q with sqhd := next })

def failRecv (q : RdmaQueue) (tag : Nat) (sqe : Sqe) (status : Nat) : Checked ε RdmaQueue := do
  let slots ← q.slots.respondReceiving tag
  let (sqhd, q) ← { q with slots }.advanceSqhd
  let cqe := Cqe.new 0 sqhd q.cfg.qid sqe.cid status
  return { q with responses := q.responses ++ [{ tag, cmd := sqe, cqe, dataLen := 0 }] }

/-- Stage an in-capsule write: lease, copy the payload out of the capsule, submit, re-post the
capsule's RECV. `none` when the pool has no lease now. -/
def tryStageInline (q : RdmaQueue) (pool : Pool) (tag : Nat) (sqe : Sqe) (idx off len : Nat) :
    Checked ε (Option RdmaQueue) :=
  match pool.alloc len with
  | none => .ok none
  | some segs => do
    let s ← q.slots.slot tag
    let src := slice (q.recvSlice idx) (sqeLen + off) len
    let data := SlotData.leased (writeSegs segs 0 src).1
    let slots ← (q.slots.put tag { s with data, dataLen := len }).submit tag sqe
    return some ({ q with slots }.postRecv idx)

def tryStageWrite (q : RdmaQueue) (pool : Pool) (tag : Nat) (sqe : Sqe) (len : Nat) :
    Checked ε (Option RdmaQueue) :=
  match pool.alloc len with
  | none => .ok none
  | some segs => do
    let s ← q.slots.slot tag
    let sgl := parseKeyedSgl sqe
    return some { q with
      slots := q.slots.put tag { s with data := .leased segs, dataLen := len }
      pendingRead := Function.update q.pendingRead tag sqe
      readBatch := q.readBatch ++ [{ tag, len, rkey := sgl.rkey, addr := sgl.addr }] }

def submit (q : RdmaQueue) (tag : Nat) (sqe : Sqe) : Checked ε RdmaQueue := do
  let slots ← q.slots.submit tag sqe
  return { q with slots }

def orWait (q : RdmaQueue) (tag : Nat) (sqe : Sqe) (held : Option Nat) :
    Option RdmaQueue → RdmaQueue
  | some q' => q'
  | none => { q with poolWait := q.poolWait ++ [(tag, sqe, held)] }

def routeCmd (role : Role B) (q : RdmaQueue) (pool : Pool) (tag : Nat) (sqe : Sqe)
    (held : Option Nat) : Checked Fatal RdmaQueue :=
  if hostDataIn role sqe.opcode = false then q.submit tag sqe
  else
    match held with
    | some idx =>
      match inlineSpan sqe with
      | .error status => do
        let q ← q.failRecv tag sqe status
        return q.postRecv idx
      | .ok span => do
        let staged ← q.tryStageInline pool tag sqe idx span.1 span.2
        return q.orWait tag sqe held staged
    | none =>
      let len := stagedLen sqe
      if len = 0 then q.failRecv tag sqe (Status.dataSglLenInvalid ||| Status.dnr)
      else do
        let staged ← q.tryStageWrite pool tag sqe len
        return q.orWait tag sqe held staged

/-- The end of `handle_recv`: claim a tag and route the command, or park it. -/
def claimOrPark (role : Role B) (q : RdmaQueue) (pool : Pool) (sqe : Sqe) (held : Option Nat) :
    Checked Fatal RdmaQueue := do
  match ← q.slots.claimTag with
  | none =>
    if q.parked.length ≥ q.cfg.sqsize then Checked.raise .commandOverflow
    else return { q with parked := q.parked ++ [(sqe, held)] }
  | some claimed => routeCmd role { q with slots := claimed.2 } pool claimed.1 sqe held

/-- Take the command capsule at buffer `idx`. Its RECV is re-armed at once, unless the payload is
in the capsule. -/
def handleRecv (role : Role B) (q : RdmaQueue) (pool : Pool) (idx : Nat) :
    Checked Fatal RdmaQueue :=
  let sqe := Sqe.readFromBytes (slice (q.recvSlice idx) 0 sqeLen)
  if heldInline role sqe then claimOrPark role q pool sqe (some idx)
  else claimOrPark role (q.postRecv idx) pool sqe none

def onResponseDone (q : RdmaQueue) (tag : Nat) : Checked ε RdmaQueue :=
  let n := q.inflight tag - 1
  let q := { q with inflight := Function.update q.inflight tag n }
  if n = 0 then do
    let released ← q.slots.releaseTag tag
    return { q with slots := released.2 }
  else return q

def processCqe (role : Role B) (q : RdmaQueue) (pool : Pool) : Wc → Checked Fatal RdmaQueue
  | .recv idx => handleRecv role q pool idx
  | .read tag => q.submit tag (q.pendingRead tag)
  | .write tag => q.onResponseDone tag
  | .send tag => q.onResponseDone tag

/-- Stage a command of `pool_wait` again. The bounds of an in-capsule payload were validated before
it was put there. -/
def restage (q : RdmaQueue) (pool : Pool) (tag : Nat) (sqe : Sqe) :
    Option Nat → Checked ε (Option RdmaQueue)
  | some idx => q.tryStageInline pool tag sqe idx (parseInlineSgl sqe).1 (parseInlineSgl sqe).2
  | none => q.tryStageWrite pool tag sqe (stagedLen sqe)

/-- One round of the retries of `pool_wait`; `none` when it stops. -/
def drainWait (q : RdmaQueue) (pool : Pool) : Checked Fatal (Option RdmaQueue) :=
  match q.poolWait with
  | [] => .ok none
  | (tag, sqe, held) :: rest => do
    let staged ← q.restage pool tag sqe held
    return staged.map fun q => { q with poolWait := rest }

/-- One round of un-parking; `none` when it stops. -/
def drainParked (role : Role B) (q : RdmaQueue) (pool : Pool) :
    Checked Fatal (Option RdmaQueue) :=
  match q.parked with
  | [] => .ok none
  | (sqe, held) :: rest => do
    match ← q.slots.claimTag with
    | none => return none
    | some claimed =>
      some <$> routeCmd role { q with slots := claimed.2, parked := rest } pool claimed.1 sqe held

def postReadsBatch (q : RdmaQueue) : RdmaQueue :=
  { q with sq := q.sq ++ q.readBatch.map .read, readBatch := [] }

def responseWrs (r : RdmaResp) : List SendWr :=
  if r.dataLen > 0 then [.write r.tag, .send r.tag] else [.send r.tag]

def postResponsesBatch (q : RdmaQueue) : RdmaQueue :=
  let batch := q.responses.drop q.answered
  { q with
    sq := q.sq ++ batch.flatMap responseWrs
    inflight := batch.foldl (fun n r => Function.update n r.tag (responseWrs r).length) q.inflight
    answered := q.responses.length }

def awaitCommand (q : RdmaQueue) (tag : Nat) : Checked ε (Option RdmaQueue) := do
  match ← q.slots.awaitCommand tag with
  | none => return none
  | some taken =>
    let s ← q.slots.slot tag
    return some { q with
      slots := taken.2
      handed := q.handed ++ [{ tag, cmd := taken.1, data := payload s }] }

def finish (q : RdmaQueue) (tag result status dataLen : Nat) (data : SlotData) :
    Checked ε RdmaQueue := do
  let s ← q.slots.slot tag
  let (sqhd, q) ← q.advanceSqhd
  let cqe := Cqe.new result sqhd q.cfg.qid s.cmd.cid status
  let slots ← (q.slots.put tag { s with data }).beginRespond tag
  return { q with slots, responses := q.responses ++ [{ tag, cmd := s.cmd, cqe, dataLen }] }

/-! ## The NIC -/

def arrive (q : RdmaQueue) (idx : Nat) (bytes : List UInt8) : Option RdmaQueue :=
  if idx ∈ q.posted then
    ((q.recvBuf idx).write 0 bytes).map fun buf =>
      { q with
        recvBuf := Function.update q.recvBuf idx buf
        posted := q.posted.erase idx
        byteLen := Function.update q.byteLen idx bytes.length
        cq := q.cq ++ [.recv idx] }
  else none

def nicSend (q : RdmaQueue) (host : List UInt8) : Option RdmaQueue :=
  match q.sq with
  | [] => none
  | .write tag :: rest => some { q with sq := rest, cq := q.cq ++ [.write tag] }
  | .send tag :: rest => some { q with sq := rest, cq := q.cq ++ [.send tag] }
  | .read r :: rest =>
    match (q.slots.slots r.tag).data with
    | .leased segs =>
      if host.length = r.len then
        let s := { q.slots.slots r.tag with data := .leased (writeSegs segs 0 host).1 }
        some { q with sq := rest, cq := q.cq ++ [.read r.tag], slots := q.slots.put r.tag s }
      else none
    | _ => none

end RdmaQueue

inductive Action where
  | arrive (idx : Nat) (bytes : List UInt8)
  | nicSend (host : List UInt8)
  | reap (pool : Pool)
  | drainWait (pool : Pool)
  | drainParked (pool : Pool)
  | postReads
  | postResponses
  | take (tag : Nat)
  | finish (tag result status dataLen : Nat) (data : SlotData)

/-- One step; `none` when it cannot happen or ends the queue. -/
def step {B : Type} (role : Role B) (q : RdmaQueue) : Action → Option RdmaQueue
  | .arrive idx bytes => q.arrive idx bytes
  | .nicSend host => q.nicSend host
  | .reap pool =>
    match q.cq with
    | [] => none
    | wc :: rest => (RdmaQueue.processCqe role { q with cq := rest } pool wc).toOption
  | .drainWait pool => (q.drainWait pool).toOption.join
  | .drainParked pool => (q.drainParked role pool).toOption.join
  | .postReads => some q.postReadsBatch
  | .postResponses => some q.postResponsesBatch
  | .take tag => (q.awaitCommand tag : Checked Fatal _).toOption.join
  | .finish tag result status dataLen data =>
    (q.finish tag result status dataLen data : Checked Fatal _).toOption

/-! ## Polls -/

/-- What the pool answers in one poll: at each completion, at each retry of `pool_wait` that goes
through and at the one that does not, and at each command un-parked. -/
structure Poll where
  reaps : List Pool
  waits : List Pool
  stop : Pool
  parks : List Pool

inductive Event where
  | poll (p : Poll)
  | other (a : Action)

def Action.ofPoll : Action → Bool
  | .reap _ | .drainWait _ | .drainParked _ | .postReads => true
  | _ => false

section

variable {S : Type} (queue : S → RdmaQueue) (step : S → Action → Option S)

def RdmaQueue.waitStops (q : RdmaQueue) (pool : Pool) : Bool :=
  match q.drainWait pool with
  | .ok none => true
  | _ => false

/-- `process_cqes` on a state that has a queue: the completions there are, one by one, then the drains
of `drain_deferred`, each until it stops. -/
def processCqes (s : S) (p : Poll) : Option S := do
  guard (p.reaps.length = (queue s).cq.length)
  let s ← runFrom step s (p.reaps.map .reap)
  let s ← runFrom step s (p.waits.map .drainWait)
  guard ((queue s).waitStops p.stop)
  let s ← runFrom step s (p.parks.map .drainParked)
  guard ((queue s).parked = [] ∨ (queue s).slots.freeTags = [])
  step s .postReads

/-- The reap loop polls; everything else happens between its polls. -/
def eventStep (s : S) : Event → Option S
  | .poll p => processCqes queue step s p
  | .other a => if a.ofPoll then none else step s a

end

end Ioutgt.Rdma
