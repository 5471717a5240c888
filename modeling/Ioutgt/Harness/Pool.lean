import Ioutgt.Lib.Run

/-!
# The queue-thread pool

The control thread of a target brings its pool of queue threads up with the first connection, hands
each connection to a thread by its queue id, and takes the pool down once it has been idle for a
while. A queue thread has a mailbox that outlives it: the senders share the queue. Starting a thread
can fail in two places, at the OS (`spawn_pinned`) and, on the thread itself, when its ring is built
(`queue_runtime`); either way its sender has been published.

A connection holds its permit, one of `active`, until it is closed.
-/

namespace Ioutgt.Harness

open Lib

/-- Bounds total preallocated queue memory across all queue threads. -/
def maxConnections : Nat := 256

/-- Thread `index` of the `pool`th pool: the admin thread is the first. -/
structure ThreadId where
  pool : Nat
  index : Nat
  deriving DecidableEq, Repr

inductive Msg where
  | conn (c : Nat)
  | stats
  | nsChanged
  | shutdown
  deriving DecidableEq, Repr

inductive Status where
  | starting
  | running
  /-- Its mailbox was empty: it reads the doorbell. -/
  | waiting
  | gone
  deriving DecidableEq, Repr

structure QueueThread where
  status : Status
  mailbox : List Msg
  deriving DecidableEq, Repr

inductive Place where
  | handshake (pool : Nat)
  | queued (th : ThreadId)
  | serving (th : ThreadId)
  | closed
  deriving DecidableEq, Repr

def Place.isOpen : Place → Bool
  | .closed => false
  | _ => true

/-- What of the configuration the control thread reads. -/
structure PoolConfig where
  ioThreads : Nat
  idleTeardown : Option Nat

structure Target where
  senders : Option Nat
  pools : Nat
  threads : ThreadId → Option QueueThread
  active : Nat
  conns : List Place
  idleSince : Option Nat

inductive PoolAction where
  /-- A connection is accepted. Should the pool be down: whether its mailboxes are made, and which of
  its threads the OS starts. -/
  | accept (spawn : Option (Nat → Bool))
  | handshake (c : Nat) (qid : Option Nat)
  | queueRuntime (th : ThreadId) (ok : Bool)
  | recv (th : ThreadId)
  | sleep (th : ThreadId)
  | mailboxFails (th : ThreadId)
  | served (c : Nat)
  | statsRequest (index : Nat)
  | notifyNsChanged
  | tick (now : Nat)

namespace Target

variable (config : PoolConfig)

def start : Target where
  senders := none
  pools := 0
  threads := fun _ => none
  active := 0
  conns := []
  idleSince := none

def setThread (s : Target) (th : ThreadId) (t : QueueThread) : Target :=
  { s with threads := Function.update s.threads th (some t) }

def send (s : Target) (th : ThreadId) (msg : Msg) : Target :=
  { s with
    threads := Function.update s.threads th
      ((s.threads th).map fun t => { t with mailbox := t.mailbox ++ [msg] }) }

def close (s : Target) (c : Nat) : Target :=
  { s with active := s.active - 1, conns := s.conns.set c .closed }

def ensurePoolUp (s : Target) (spawn : Option (Nat → Bool)) : Target :=
  match s.senders, spawn with
  | some _, _ => s
  | none, none => s
  | none, some started =>
    { s with
      senders := some s.pools
      pools := s.pools + 1
      threads := fun th =>
        if th.pool = s.pools ∧ th.index ≤ config.ioThreads then
          some { status := if started th.index then .starting else .gone, mailbox := [] }
        else s.threads th }

def handleAccept (s : Target) (spawn : Option (Nat → Bool)) : Target :=
  let s := { s with idleSince := none }.ensurePoolUp config spawn
  match s.senders with
  | none => { s with conns := s.conns ++ [.closed] }
  | some pool =>
    if s.active + 1 > maxConnections then { s with conns := s.conns ++ [.closed] }
    else { s with active := s.active + 1, conns := s.conns ++ [.handshake pool] }

def route (qid : Nat) : Option Nat :=
  if qid = 0 then some 0
  else if config.ioThreads = 0 then none
  else some ((qid - 1) % config.ioThreads + 1)

def handshaken (s : Target) (c pool : Nat) (qid : Option Nat) : Target :=
  match qid.bind (route config) with
  | none => s.close c
  | some index =>
    { s with conns := s.conns.set c (.queued ⟨pool, index⟩) }.send ⟨pool, index⟩ (.conn c)

def exitThread (s : Target) (th : ThreadId) (mailbox : List Msg) : Target :=
  { s with
    active := s.active - s.conns.countP (· = Place.serving th)
    conns := s.conns.map fun p => if p = Place.serving th then .closed else p }.setThread th
      { status := .gone, mailbox }

def receive (s : Target) (th : ThreadId) : List Msg → Option Target
  | [] => none
  | .conn c :: rest =>
    some ({ s with conns := s.conns.set c (.serving th) }.setThread th
      { status := .running, mailbox := rest })
  | .stats :: rest => some (s.setThread th { status := .running, mailbox := rest })
  | .nsChanged :: rest => some (s.setThread th { status := .running, mailbox := rest })
  | .shutdown :: rest => some (s.exitThread th rest)

def teardownPool (s : Target) (pool : Nat) : Target :=
  { s with
    senders := none
    threads := fun th =>
      if th.pool = pool then
        (s.threads th).map fun t => { t with mailbox := t.mailbox ++ [.shutdown] }
      else s.threads th }

def maybeTeardown (s : Target) (now : Nat) : Target :=
  match config.idleTeardown, s.senders with
  | none, _ => s
  | some _, none => { s with idleSince := none }
  | some grace, some pool =>
    if s.active = 0 then
      let since := s.idleSince.getD now
      if now - since ≥ grace then { s.teardownPool pool with idleSince := none }
      else { s with idleSince := some since }
    else { s with idleSince := none }

def step (s : Target) : PoolAction → Option Target
  | .accept spawn => some (s.handleAccept config spawn)
  | .handshake c qid =>
    match s.conns[c]? with
    | some (.handshake pool) => some (s.handshaken config c pool qid)
    | _ => none
  | .queueRuntime th ok => do
    let t ← s.threads th
    if t.status = .starting then
      return s.setThread th { t with status := if ok then .running else .gone }
    else none
  | .recv th => do
    let t ← s.threads th
    if t.status = .running ∨ t.status = .waiting then s.receive th t.mailbox else none
  | .sleep th => do
    let t ← s.threads th
    if t.status = .running ∧ t.mailbox = [] then return s.setThread th { t with status := .waiting }
    else none
  | .mailboxFails th => do
    let t ← s.threads th
    if t.status = .waiting then return s.exitThread th t.mailbox else none
  | .served c =>
    match s.conns[c]? with
    | some (.serving _) => some (s.close c)
    | _ => none
  | .statsRequest index => some (s.senders.elim s fun pool => s.send ⟨pool, index⟩ .stats)
  | .notifyNsChanged => some (s.senders.elim s fun pool => s.send ⟨pool, 0⟩ .nsChanged)
  | .tick now => some (s.maybeTeardown config now)

/-- The thread can still take connection `c` from its mailbox, by its own steps alone. -/
def CanTake (s : Target) (th : ThreadId) (c : Nat) : Prop :=
  ∃ as s', (∀ a ∈ as, a = .queueRuntime th true ∨ a = .recv th) ∧
    runFrom (step config) s as = some s' ∧ s'.conns[c]? = some (.serving th)

def holdsConn (s : Target) (th : ThreadId) : Bool :=
  ((s.threads th).elim [] QueueThread.mailbox).any fun
    | .conn _ => true
    | _ => false

def isGone (s : Target) (th : ThreadId) : Bool :=
  (s.threads th).any (·.status = .gone)

/-- The thread whose mailbox connection `c` is put in when its setup ends. -/
def routedTo (s : Target) (c : Nat) (qid : Option Nat) : Option ThreadId :=
  match s.conns[c]? with
  | some (.handshake pool) => (qid.bind (route config)).map fun index => ⟨pool, index⟩
  | _ => none

/-- **No connection meets a thread that does not run**: a connection is routed to a thread that has not
failed, and a thread that fails has no connection waiting. -/
def MeetsThread (s : Target) : PoolAction → Prop
  | .handshake c qid => (s.routedTo config c qid).any s.isGone = false
  | .queueRuntime th ok => ok = false → s.holdsConn th = false
  | .mailboxFails th => s.holdsConn th = false
  | _ => True

instance (s : Target) : ∀ a, Decidable (s.MeetsThread config a)
  | .handshake c qid => inferInstanceAs (Decidable ((s.routedTo config c qid).any s.isGone = false))
  | .queueRuntime th ok => inferInstanceAs (Decidable (ok = false → s.holdsConn th = false))
  | .mailboxFails th => inferInstanceAs (Decidable (s.holdsConn th = false))
  | .accept _ | .recv _ | .sleep _ | .served _ | .statsRequest _ | .notifyNsChanged | .tick _ =>
    .isTrue trivial

end Target

end Ioutgt.Harness
