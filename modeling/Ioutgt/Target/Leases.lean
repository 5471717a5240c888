import Ioutgt.Core.Pool
import Ioutgt.Core.Backend
import Ioutgt.Lib.Run

/-!
# The pool pages of an IO queue

An IO queue of either transport as far as its data-buffer pool goes: where each tag is, which pages it
has leased, which reads are parked for pages and, on RDMA, which write commands wait in `pool_wait`.

Over TCP the receive loop leases a landing buffer and takes a private one when the pool is exhausted;
the send loop releases a tag once its response is sent, and on its way out those of the answers with
data that it has staged. Over RDMA everything but the slot tasks happens inside a poll of the completion
queue: responses done release their tags, capsules are routed, then `pool_wait` is retried from the
front and parked commands get tags. What ends the send loop or the reap loop is left open.
-/

namespace Ioutgt.Target.Leases

open Ioutgt.Core

inductive Transport where
  | tcp
  | rdma
  deriving DecidableEq, Repr

/-- The command line, with the range it holds `--io-queue-size` to. -/
structure Cli where
  queueBufMb : Nat
  ioQueueSize : Nat
  range : 2 ≤ ioQueueSize ∧ ioQueueSize ≤ 256

/-- `queue_buf_mb.saturating_mul(1024 * 1024)`. -/
def Cli.queueBufBytes (cli : Cli) : Nat := min (cli.queueBufMb * (1024 * 1024)) (2 ^ 64 - 1)

def arenaPerItem : Nat := 64

inductive Work where
  | read (len : Nat)
  | other
  deriving DecidableEq, Repr

inductive Place where
  | free
  | receiving (work : Work)
  | ready (work : Work)
  /-- Executing: a read that found too few pages. It is runnable again once its waker was taken. -/
  | waiting (len : Nat)
  | running
  | responding
  deriving DecidableEq, Repr

def Place.executing : Place → Bool
  | .waiting _ => true
  | .running => true
  | _ => false

/-- Where a staged write command is: its data is here already, or a READ has to bring it. -/
def Place.staged (inCapsule : Bool) : Place := if inCapsule then .ready .other else .receiving .other

structure Deferred where
  tag : Nat
  len : Nat
  /-- Its payload is in the capsule buffer it keeps. -/
  inCapsule : Bool
  deriving DecidableEq, Repr

inductive Phase where
  /-- The send loop is alive, or the reap loop is between two polls. -/
  | resting
  | handling
  | draining
  | unparking
  | ended
  deriving DecidableEq, Repr

/-- Slot tasks get to run: a poll of the completion queue has no await in it. -/
def Phase.yields (ph : Phase) : Bool := ph == .resting || ph == .ended

/-- Where tags are released: by the send loop, or within a poll. -/
def Transport.releases : Transport → Phase
  | .tcp => .resting
  | .rdma => .handling

structure LeaseQueue where
  transport : Transport
  sqsize : Nat
  /-- The tag's slot task is the waker. -/
  pool : BufPool Nat
  place : Nat → Place
  lease : Nat → List Run
  poolWait : List Deferred
  phase : Phase

/-- How a TCP capsule's payload lands. -/
inductive Landing where
  | none
  | retained
  /-- It is copied, or solicited, into a buffer of `len` bytes. -/
  | buffer (len : Nat)
  deriving DecidableEq, Repr

inductive Route where
  | submit (work : Work)
  | fail
  /-- Its host data, of `len` bytes, goes to a lease first. -/
  | stage (len : Nat) (inCapsule : Bool)
  deriving DecidableEq, Repr

/-- Lengths that get past `staged_len` and the in-capsule bounds. -/
def stageable (len : Nat) (inCapsule : Bool) : Bool :=
  0 < len && len ≤ if inCapsule then page else mdtsBytes

namespace LeaseQueue

/-- Depth of a new IO queue when the host asks for `asked`, 0-based: refused over TCP when out of
range, clamped over RDMA. -/
def sqsizeOf (cli : Cli) (asked : Nat) : Transport → Option Nat
  | .tcp => if 2 ≤ asked + 1 ∧ asked + 1 ≤ cli.ioQueueSize then some (asked + 1) else none
  | .rdma => some (min (max (asked + 1) 1) (max cli.ioQueueSize 1))

/-- Note the fixed-buffer index of a registered pool and, over TCP, reserve the send arena. -/
def register (pool : BufPool Nat) (sqsize : Nat) (transport : Transport) :
    Option Nat → BufPool Nat
  | none => pool
  | some idx =>
    let pool := pool.setBufIndex idx
    match transport with
    | .tcp => (pool.reserveArena (2 * sqsize * arenaPerItem)).getD pool
    | .rdma => pool

def accept (transport : Transport) (cli : Cli) (asked : Nat) (registered : Option Nat) :
    Option LeaseQueue :=
  match sqsizeOf cli asked transport, BufPool.new cli.queueBufBytes with
  | some sqsize, some pool =>
    some { transport, sqsize, pool := register pool sqsize transport registered,
           place := fun _ => .free, lease := fun _ => [], poolWait := [], phase := .resting }
  | _, _ => none

def setPlace (q : LeaseQueue) (tag : Nat) (p : Place) : LeaseQueue :=
  { q with place := Function.update q.place tag p }

def setData (q : LeaseQueue) (tag : Nat) (segs : List Run) : LeaseQueue :=
  { q with pool := q.pool.dropLease (q.lease tag), lease := Function.update q.lease tag segs }

def tryLease (q : LeaseQueue) (tag len : Nat) : Option LeaseQueue :=
  (q.pool.alloc len).map fun r => { q with pool := r.2 }.setData tag r.1

def leaseOrOwned (q : LeaseQueue) (tag len : Nat) : LeaseQueue :=
  (q.tryLease tag len).getD (q.setData tag [])

def pollRead (q : LeaseQueue) (tag len : Nat) : LeaseQueue :=
  match q.tryLease tag len with
  | some q => q.setPlace tag .running
  | none => { q with pool := (q.pool.allocAwait len tag).2 }.setPlace tag (.waiting len)

def tryStage (q : LeaseQueue) (tag len : Nat) (inCapsule : Bool) : Option LeaseQueue :=
  (q.tryLease tag len).map fun q => q.setPlace tag (.staged inCapsule)

def releaseTag (q : LeaseQueue) (tag : Nat) : LeaseQueue := (q.setData tag []).setPlace tag .free

end LeaseQueue

inductive LeaseAction where
  /-- The TCP receive loop gives a capsule a tag. -/
  | capsule (tag : Nat) (work : Work) (landing : Landing)
  | arrived (tag : Nat)
  | refused (tag : Nat)
  | start (tag : Nat)
  | repoll (tag : Nat)
  | finish (tag : Nat)
  | release (tag : Nat)
  | poll
  | route (tag : Nat) (how : Route)
  | drain
  | drained
  | polled
  /-- The loop ends; over TCP the sender still recycles its batches, with the answers `staged` that
  carry data. -/
  | endLoop (staged : List Nat)
  deriving DecidableEq, Repr

namespace LeaseQueue

def frontStaged (q : LeaseQueue) : Option LeaseQueue :=
  match q.poolWait with
  | [] => none
  | d :: rest => (q.tryStage d.tag d.len d.inCapsule).map fun q => { q with poolWait := rest }

def routeTo (q : LeaseQueue) (tag : Nat) : Route → Option LeaseQueue
  | .submit work => some (q.setPlace tag (.ready work))
  | .fail => some (q.setPlace tag .responding)
  | .stage len inCapsule =>
    if stageable len inCapsule then
      match q.tryStage tag len inCapsule with
      | some q => some q
      | none =>
        let q := q.setPlace tag (.receiving .other)
        some { q with poolWait := q.poolWait ++ [{ tag, len, inCapsule }] }
    else none

def land (q : LeaseQueue) (tag : Nat) (work : Work) : Landing → Option LeaseQueue
  | .none => some (q.setPlace tag (.ready work))
  | .retained => some (q.setPlace tag (.receiving work))
  | .buffer len =>
    -- more than MDTS ends the connection
    if len ≤ mdtsBytes then some ((q.leaseOrOwned tag len).setPlace tag (.receiving work)) else none

def startTask (q : LeaseQueue) (tag : Nat) : Work → Option LeaseQueue
  | .other => some (q.setPlace tag .running)
  | .read len => if len ≤ mdtsBytes then some (q.pollRead tag len) else none

def step (q : LeaseQueue) : LeaseAction → Option LeaseQueue
  | .capsule tag work landing =>
    if q.transport = .tcp ∧ tag < q.sqsize ∧ q.place tag = .free then q.land tag work landing
    else none
  | .arrived tag =>
    match q.place tag with
    | .receiving work =>
      -- over RDMA a READ is done; none was posted for a command in `pool_wait`
      if q.transport = .tcp ∨ (q.phase = .handling ∧ ∀ d ∈ q.poolWait, d.tag ≠ tag) then
        some (q.setPlace tag (.ready work))
      else none
    | _ => none
  | .refused tag =>
    match q.place tag with
    | .receiving _ => if q.transport = .tcp then some (q.setPlace tag .responding) else none
    | _ => none
  | .start tag =>
    match q.place tag with
    | .ready work => if q.phase.yields then q.startTask tag work else none
    | _ => none
  | .repoll tag =>
    match q.place tag with
    | .waiting len =>
      if q.phase.yields ∧ tag ∉ q.pool.waiters then some (q.pollRead tag len) else none
    | _ => none
  | .finish tag =>
    if q.place tag = .running ∧ q.phase.yields then some (q.setPlace tag .responding) else none
  | .release tag =>
    if q.place tag = .responding ∧ q.phase = q.transport.releases then some (q.releaseTag tag)
    else none
  | .poll =>
    if q.transport = .rdma ∧ q.phase = .resting then some { q with phase := .handling } else none
  | .route tag how =>
    if q.transport = .rdma ∧ (q.phase = .handling ∨ q.phase = .unparking) ∧ tag < q.sqsize ∧
        q.place tag = .free then
      q.routeTo tag how
    else none
  | .drain =>
    if q.phase = .handling ∨ q.phase = .draining then
      q.frontStaged.map fun q => { q with phase := .draining }
    else none
  | .drained =>
    if (q.phase = .handling ∨ q.phase = .draining) ∧ q.frontStaged.isNone then
      some { q with phase := .unparking }
    else none
  | .polled => if q.phase = .unparking then some { q with phase := .resting } else none
  | .endLoop staged =>
    if q.phase ≠ .ended ∧ staged.Nodup ∧ (∀ tag ∈ staged, q.place tag = .responding) ∧
        (q.transport = .rdma → staged = []) then
      some { staged.foldl releaseTag q with phase := .ended }
    else none

/-- A tag other than `tag` has pages of the pool. -/
def LeaseBeside (q : LeaseQueue) (tag : Nat) : Prop :=
  ∃ other < q.sqsize, other ≠ tag ∧ q.lease other ≠ []

def Satisfiable (q : LeaseQueue) (len : Nat) : Prop :=
  pagesOf len + q.pool.arenaPages ≤ q.pool.npages

/-- Whoever waits for pages waits for a lease of someone else, and for no more than there is. -/
structure WaitsWell (q : LeaseQueue) : Prop where
  reads : ∀ tag ∈ q.pool.waiters, q.LeaseBeside tag
  /-- A command that a running poll is about to retry is not waiting. -/
  writes : q.phase = .resting → ∀ d ∈ q.poolWait, q.LeaseBeside d.tag
  readsFit : ∀ tag len, q.place tag = .waiting len → q.Satisfiable len
  writesFit : ∀ d ∈ q.poolWait, q.Satisfiable d.len

/-- The send loop or reap loop has ended, nothing is at the backend and no slot task can run, and yet
some slot is executing. -/
structure Stuck (q : LeaseQueue) : Prop where
  ended : q.phase = .ended
  noneRunning : ∀ tag, q.place tag ≠ .running
  noneReady : ∀ tag work, q.place tag ≠ .ready work
  noneWoken : ∀ tag len, q.place tag = .waiting len → tag ∈ q.pool.waiters
  executing : ∃ tag, (q.place tag).executing = true

end LeaseQueue

end Ioutgt.Target.Leases
