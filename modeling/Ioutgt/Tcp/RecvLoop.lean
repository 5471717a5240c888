import Ioutgt.Tcp.Recv

/-!
# The receive loop of one connection

`drive_recv` as a step function, cut at its awaits and at each round of its inner loop, together
with what runs beside it on the same queue: the kernel filling the receive ring, the slot tasks,
and the send loop taking work and releasing tags. The environment's choices are the actions: the
bytes a receive returns, the lease the pool hands out, the completion a slot task produces. A slot
task or the send loop may act between any two steps of the receive loop.
-/

namespace Ioutgt.Tcp

open Lib Ioutgt.Core Ioutgt.Nvme Ioutgt.Uring

def scratchSize : Nat := 64 * 1024

/-- H2C payload tails at least this large are received straight into the slot buffer. -/
def h2cDirectMin : Nat := 16 * 1024

inductive Pc where
  | fill
  /-- In the inner loop, with the unconsumed part of the window. -/
  | inner (w : Window)
  | awaitTag (w : Window) (sqe : Sqe) (dataLen : Nat) (ddgst : Bool)
  /-- Receiving a payload tail straight into the slot: all its pieces, and those still unfilled. -/
  | direct (d : DataPhase) (subs iovs : List Piece)
  | ended (e : Option RecvEnd)
  | panicked (p : Panic)

/-- What a queue thread is handed to run one connection. -/
structure ConnCfg where
  queue : QueueCfg
  hdrDigest : Bool
  dataDigest : Bool
  ring : Option Nat
  connect : Sqe
  ring_pos : ∀ n, ring = some n → 0 < n
  /-- `read_connect` refuses any other first command. -/
  connect_fabrics : connect.opcode = AdminOpcode.fabrics

def ConnCfg.reader (cfg : ConnCfg) : Reader :=
  match cfg.ring with
  | none => .classic
  | some bufSize => .ring { ring := BufRing.new bufSize, cur := none }

structure Conn where
  dataDigest : Bool
  link : Link
  decoder : PduDecoder
  phase : RecvPhase
  pc : Pc

namespace Conn

/-- A queue whose Connect command has been submitted, about to enter its receive loop. -/
def init (cfg : ConnCfg) : Checked RecvEnd Conn := do
  let queue := NvmeTcpQueue.new cfg.queue
  match ← queue.slots.claimTag with
  | none => .abort .assertFailed
  | some (tag, slots) =>
    let queue ← { queue with slots }.submit tag cfg.connect
    return { dataDigest := cfg.dataDigest, link := { queue, reader := cfg.reader }
             decoder := PduDecoder.new cfg.hdrDigest, phase := .header, pc := .fill }

def fail (c : Conn) : Fail RecvEnd → Conn
  | .err e => { c with pc := .ended (some e) }
  | .panic p => { c with pc := .panicked p }

def settle (c : Conn) : Checked RecvEnd Conn → Conn
  | .ok c' => c'
  | .error f => c.fail f

/-- Header phase: feed the decoder; once a header is complete, route the PDU. -/
def feedHeader (c : Conn) (w : Window) : Checked RecvEnd (Conn × Nat) := do
  let (decoder, consumed) ← (c.decoder.feed (c.link.bytesOf w)).mapErr .term
  let w := w.drop consumed
  if !decoder.isComplete then return ({ c with decoder, pc := .inner w }, consumed)
  else
    let (pdu, decoder) ← decoder.take.mapErr .term
    match ← handlePdu c.link pdu c.dataDigest w with
    | .capsule sqe dataLen ddgst =>
      return ({ c with decoder, pc := .awaitTag w sqe dataLen ddgst }, consumed)
    | .payload link d => return ({ c with decoder, link, phase := .data d, pc := .inner w }, consumed)

/-- One round of the inner loop; with the number of bytes it consumed. -/
def round (c : Conn) (w : Window) : Checked RecvEnd (Conn × Nat) :=
  match c.phase with
  | .header => c.feedHeader w
  | .data d => do
    let (queue, take, phase) ← d.advance c.link.queue (c.link.bytesOf w)
    return ({ c with link := { c.link with queue }, phase, pc := .inner (w.drop take) }, take)
  | .ddgst d => do
    let (queue, take, phase) ← d.advance c.link.queue (c.link.bytesOf w)
    return ({ c with link := { c.link with queue }, phase, pc := .inner (w.drop take) }, take)

def startDirect (c : Conn) (d : DataPhase) : Checked RecvEnd Conn := do
  let dest ← d.dest c.link.queue
  let s ← c.link.queue.slots.slot d.tag
  match s.data with
  | .leased segs =>
    let subs := subSegs 0 segs dest d.remaining
    Checked.require (subs.length ≤ SlotData.maxSegs) .indexOutOfBounds
    return { c with pc := .direct d subs subs }
  | .empty => return { c with pc := .direct d [] [] }
  | .ring .. => .abort .unreachable

/-- The inner loop is through with its window: consume it; a large H2C tail still to come
switches to the direct path. -/
def drained (c : Conn) : Checked RecvEnd Conn := do
  match c.link.reader with
  | .ring m =>
    let m ← m.consume.retire
    return { c with link := { c.link with reader := .ring m }, pc := .fill }
  | .classic =>
    match c.phase with
    | .data d =>
      match d.kind with
      | .h2c _ _ =>
        if d.remaining ≥ h2cDirectMin then c.startDirect d else return { c with pc := .fill }
      | .inCapsule => return { c with pc := .fill }
    | _ => return { c with pc := .fill }

/-- The rest of `recv_tail_direct`, once its receives are over. -/
def finishDirect (c : Conn) (d : DataPhase) (subs : List Piece) (got : Nat) :
    Checked RecvEnd Conn :=
  if got < d.remaining then .raise .closed
  else do
    let s ← c.link.queue.slots.slot d.tag
    let crc := match s.data with
      | .leased segs => if d.ddgst then crc32cAppend d.crc (gather segs subs) else d.crc
      | _ => d.crc
    let (queue, phase) ← { d with crc }.finish c.link.queue
    return { c with link := { c.link with queue }, phase, pc := .fill }

/-- One `recvmsg` of the direct path returned `bs`: the kernel has scattered them. An empty `bs`
is EOF. -/
def recvmsg (c : Conn) (d : DataPhase) (subs iovs : List Piece) (bs : List UInt8) :
    Checked RecvEnd Conn := do
  let s ← c.link.queue.slots.slot d.tag
  let data ← match s.data with
    | .leased segs => do
      Checked.require (∀ p ∈ iovs, p.off + p.len ≤ (segs[p.seg]?.getD []).length) .indexOutOfBounds
      pure (SlotData.leased (scatter segs iovs bs))
    | data => pure data
  let queue ← c.link.queue.modifySlot d.tag ({ · with data })
  let c := { c with link := { c.link with queue } }
  let iovs := advance iovs bs.length
  let left := (iovs.map (·.len)).sum
  if left = 0 ∨ bs = [] then
    let got ← Checked.sub (subs.map (·.len)).sum left
    c.finishDirect d subs got
  else return { c with pc := .direct d subs iovs }

/-- The tag of a command capsule was awaited: claim it and handle the capsule. A failure after
the claim leaves the tag claimed. -/
def claim (c : Conn) (w : Window) (sqe : Sqe) (dataLen : Nat) (ddgst : Bool)
    (segs : List (List UInt8)) : Option Conn :=
  match (c.link.queue.slots.claimTag : Checked RecvEnd _) with
  | .error f => some (c.fail f)
  | .ok none => none
  | .ok (some (tag, slots)) =>
    let c := { c with link := { c.link with queue := { c.link.queue with slots } } }
    some <| c.settle do
      let (link, phase) ← handleCapsuleCmd c.link w tag segs sqe dataLen ddgst
      return { c with link, phase, pc := .inner w }

end Conn

inductive Action where
  | recv (bs : List UInt8)
  | kernelFill (bs : List UInt8)
  | observe
  | recvEnd (e : Option RecvEnd)
  | round
  | drained
  /-- A tag is free for the waiting capsule; the pool would lease `segs`. -/
  | claim (segs : List (List UInt8))
  | recvmsg (bs : List UInt8)
  | awaitCommand (tag : Nat)
  /-- The slot task of `tag` leases a buffer, or fills the one it has. -/
  | touch (tag : Nat) (segs : List (List UInt8))
  /-- The slot task of `tag` completes its command: dispatch came to `status`, with the two result
  words and `dataLen` bytes for the host in the slot buffer. -/
  | complete (tag result rsvd status dataLen : Nat)
  | takeWork
  | releaseTag (tag : Nat)

namespace Conn

/-- Run a part of the machine that is not the receive loop itself. -/
def withLink (c : Conn) (x : Checked RecvEnd Link) : Conn :=
  c.settle do return { c with link := ← x }

def step (c : Conn) : Action → Option (Conn × List UInt8)
  | .recv bs =>
    match c.pc, c.link.reader with
    | .fill, .classic =>
      if bs ≠ [] ∧ bs.length ≤ scratchSize then some ({ c with pc := .inner (.scratch bs) }, [])
      else none
    | _, _ => none
  | .kernelFill bs =>
    match c.link.reader with
    | .ring m => (m.ring.kernelFill bs).map fun ring =>
        ({ c with link := { c.link with reader := .ring { m with ring } } }, [])
    | .classic => none
  | .observe =>
    match c.pc, c.link.reader with
    | .fill, .ring m => m.observe.bind fun m => m.cur.map fun cur =>
        ({ c with link := { c.link with reader := .ring m }
                  pc := .inner (.ring cur.bid cur.off cur.len) }, [])
    | _, _ => none
  | .recvEnd e =>
    match c.pc with
    | .fill => if e = none ∨ e = some .io then some ({ c with pc := .ended e }, []) else none
    | .direct .. => if e = some .io then some ({ c with pc := .ended e }, []) else none
    | _ => none
  | .round =>
    match c.pc with
    | .inner w =>
      if c.link.bytesOf w = [] then none
      else match c.round w with
        | .ok (c', n) => some (c', (c.link.bytesOf w).take n)
        | .error f => some (c.fail f, [])
    | _ => none
  | .drained =>
    match c.pc with
    | .inner w => if c.link.bytesOf w = [] then some (c.settle c.drained, []) else none
    | _ => none
  | .claim segs =>
    match c.pc with
    | .awaitTag w sqe dataLen ddgst =>
      if SlotData.LeaseOk (if dataLen > 0 then dataLen else sqe.dptr.length) segs then
        (c.claim w sqe dataLen ddgst segs).map (·, [])
      else none
    | _ => none
  | .recvmsg bs =>
    match c.pc with
    | .direct d subs iovs =>
      if bs.length ≤ (iovs.map (·.len)).sum then some (c.settle (c.recvmsg d subs iovs bs), bs)
      else none
    | _ => none
  | .awaitCommand tag =>
    if (c.link.queue.slots.slots tag).state = .ready ∧ tag < c.link.queue.cfg.sqsize then
      some (c.withLink do
        match ← c.link.queue.slots.awaitCommand tag with
        | none => return c.link
        | some (_, slots) => return { c.link with queue := { c.link.queue with slots } }, [])
    else none
  | .touch tag segs =>
    if (c.link.queue.slots.slots tag).state = .executing ∧ tag < c.link.queue.cfg.sqsize then
      some (c.withLink (c.link.setData tag (.leased segs)), [])
    else none
  | .complete tag result rsvd status dataLen =>
    if (c.link.queue.slots.slots tag).state = .executing ∧ tag < c.link.queue.cfg.sqsize then
      some (c.withLink do
        let queue ← c.link.queue.finish tag result rsvd status dataLen
        return { c.link with queue }, [])
    else none
  | .takeWork =>
    if c.link.queue.taken < c.link.queue.send.length then
      let queue := { c.link.queue with taken := c.link.queue.taken + 1 }
      some ({ c with link := { c.link with queue } }, [])
    else none
  | .releaseTag tag =>
    if (c.link.queue.slots.slots tag).state = .responding ∧ tag < c.link.queue.cfg.sqsize then
      some (c.withLink (c.link.releaseTag tag), [])
    else none

end Conn

end Ioutgt.Tcp
