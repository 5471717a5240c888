import Ioutgt.Lib.Run
import Ioutgt.Uring.Slab

/-!
# The buffer groups of a thread

A connection that receives by a ring has a buffer group of its own. The group's id comes from the
thread's pool and goes back there when the ring is dropped, which is when the last reference to it is:
the receive loop holds some, and so does every slot with a payload in the ring.

The kernel posts the completions of an armed multishot receive. It assumes nothing here but that one
without data is the last, and that one with data names its buffer.
-/

namespace Ioutgt.Uring

def bgidRange : Nat := 64

/-- `BGID_POOL`, the id to be handed out next first; `none` until first use. -/
abbrev BgidPool := Option (List Nat)

def BgidPool.ids (pool : BgidPool) : List Nat := pool.getD (List.range bgidRange)

def allocBgid (pool : BgidPool) : Option Nat × BgidPool := (pool.ids.head?, some pool.ids.tail)

def freeBgid (pool : BgidPool) (bgid : Nat) : BgidPool := pool.map (bgid :: ·)

structure RingConn where
  bgid : Nat
  driving : Bool
  op : Option Nat
  retained : Nat
  deriving DecidableEq, Repr

/-- A multishot receive that is armed in the kernel: its terminal completion is not posted. -/
structure LiveRecv where
  key : Nat
  bgid : Nat
  conn : Nat
  deriving DecidableEq, Repr

structure Groups where
  pool : BgidPool
  conns : Nat → Option RingConn
  opened : Nat
  slab : Slab
  next : Nat
  live : List LiveRecv
  cqes : List Cqe
  /-- The groups given back so far, each with the receives that were live on it then. -/
  returned : List (Nat × List LiveRecv)

namespace Groups

def init : Groups where
  pool := none
  conns := fun _ => none
  opened := 0
  slab := .empty
  next := 0
  live := []
  cqes := []
  returned := []

def liveOn (t : Groups) (bgid : Nat) : List LiveRecv := t.live.filter (·.bgid = bgid)

def dropRing (t : Groups) (k : Nat) (c : RingConn) : Groups :=
  { t with
    pool := freeBgid t.pool c.bgid
    conns := Function.update t.conns k none
    returned := t.returned ++ [(c.bgid, t.liveOn c.bgid)] }

/-- Connection `k` is `c` now; a ring that nothing refers to any more is dropped. -/
def put (t : Groups) (k : Nat) (c : RingConn) : Groups :=
  if c.driving = false ∧ c.retained = 0 then t.dropRing k c
  else { t with conns := Function.update t.conns k (some c) }

/-- `MultiOp::drop`, of an operation that may have been through. -/
def dropOp (t : Groups) (op : Option Nat) : Groups :=
  { t with slab := op.elim t.slab t.slab.orphan }

/-- `BufRing::for_connection`; `registers` is whether the kernel takes the buffers and the ring. Without
a ring the connection receives the classic way. -/
def forConnection (t : Groups) (registers : Bool) : Groups :=
  match allocBgid t.pool with
  | (none, pool) => { t with pool }
  | (some bgid, pool) =>
    if registers then
      { t with
        pool, opened := t.opened + 1
        conns := Function.update t.conns t.opened (some ⟨bgid, true, none, 0⟩) }
    else { t with pool := freeBgid pool bgid }

/-- `drive_recv` returns: its references to the ring are dropped, the reader's before its receive. -/
def leave (t : Groups) (k : Nat) (c : RingConn) : Groups :=
  (t.put k { c with driving := false, op := none }).dropOp c.op

def recvMulti (t : Groups) (k : Nat) (c : RingConn) : Groups :=
  { t.put k { c with op := some t.next } with
    slab := t.slab.insert t.next .new
    next := t.next + 1
    live := ⟨t.next, c.bgid, k⟩ :: t.live }

def enobufs : Int := 105

/-- What `fill_bid` makes of the next result of the armed receive `key`. -/
def fillBid (t : Groups) (k : Nat) (c : RingConn) (key : Nat) : Groups :=
  match t.slab.pollNext key k with
  | none => t.leave k c
  | some (polled, _, slab) =>
    let t := { t with slab }
    match polled with
    | .pending => t
    | .ended => t.leave k c
    | .ready r =>
      if 0 < r.result then
        if r.more then t else (t.put k { c with op := none }).dropOp (some key)
      else if r.result = -enobufs then (t.put k { c with op := none }).dropOp (some key)
      else t.leave k c

inductive Action where
  | connect (registers : Bool)
  /-- The reader of `k` arms its receive; `submits` is whether the submission queue takes it. -/
  | arm (k : Nat) (submits : Bool)
  | post (key : Nat) (result : CqeResult)
  | reap
  | poll (k : Nat)
  | retain (k : Nat)
  | release (k : Nat)
  /-- The receive loop of `k` ends by a PDU: a protocol error, or the host's termination request. -/
  | stop (k : Nat)
  deriving DecidableEq, Repr

def driven (t : Groups) (k : Nat) : Option RingConn := (t.conns k).filter (·.driving)

def step (t : Groups) : Action → Option Groups
  | .connect registers => some (t.forConnection registers)
  | .arm k submits => (t.driven k).bind fun c =>
    if c.op = none then some (if submits then t.recvMulti k c else t.leave k c) else none
  | .post key result =>
    if key ∈ t.live.map (·.key) ∧ (result.result ≤ 0 → result.more = false) then
      some { t with
        cqes := t.cqes ++ [⟨some key, result⟩]
        live := if result.more then t.live else t.live.filter (·.key ≠ key) }
    else none
  | .reap => some { t with slab := (t.slab.reap t.cqes).1, cqes := [] }
  | .poll k => (t.driven k).bind fun c => c.op.map (t.fillBid k c)
  | .retain k => (t.driven k).map fun c => t.put k { c with retained := c.retained + 1 }
  | .release k => (t.conns k).bind fun c =>
    if 0 < c.retained then some (t.put k { c with retained := c.retained - 1 }) else none
  | .stop k => (t.driven k).map (t.leave k)

end Groups

end Ioutgt.Uring
