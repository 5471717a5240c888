import Ioutgt.Lib.Run
import Ioutgt.Nvme.Execute

/-!
# The queues of a port

Every connection of a port is a queue with its own dispatch context; what they share is the port's
configuration and its controller registry. Connections are numbered in the order they are accepted.
A command is dispatched in one step: the registry is locked once in it. A namespace table is looked
up where it is read, so every command comes with the tables of its moment.
-/

namespace Ioutgt.Target

open Lib Ioutgt.Core Ioutgt.Nvme

structure QueueConn where
  qid : Nat
  sqsize : Nat
  tid : Int
  cpus : List UInt8
  peer : List UInt8
  connectData : ConnectData

namespace QueueConn

variable {B : Type}

def ctx (conn : QueueConn) (port : PortConfig) (now : Nat) : ConnCtx B where
  qid := conn.qid
  sqsize := conn.sqsize
  tid := conn.tid
  cpus := conn.cpus
  port := port
  connectData := conn.connectData
  peer := conn.peer
  role := if conn.qid = 0 then .admin (.new now) else .io (.new B)

end QueueConn

structure Queues (B : Type) where
  registry : Registry
  ctxs : Nat → Option (ConnCtx (Volume B))
  accepted : Nat

inductive QueueAction (B : Type) where
  | accept (conn : QueueConn) (now : Nat)
  | command (k : Nat) (tables : Admin.Tables B) (now : Nat) (slot : SlotView) (sqe : Sqe)
  | remove (cntlid : Nat)
  | close (k : Nat)

namespace Queues

variable {B : Type}

def start (B : Type) (slice : Slice) : Queues B where
  registry := .ofSlice slice
  ctxs := fun _ => none
  accepted := 0

def setCtx (q : Queues B) (k : Nat) (ctx : Option (ConnCtx (Volume B))) : Queues B :=
  { q with ctxs := Function.update q.ctxs k ctx }

def step [Backend B] (port : PortConfig) (q : Queues B) : QueueAction B → Option (Queues B)
  | .accept conn now =>
    some { q.setCtx q.accepted (some (conn.ctx port now)) with accepted := q.accepted + 1 }
  | .command k tables now slot sqe => do
    let ctx ← q.ctxs k
    let (_, ctx, registry) ←
      (execute ctx tables q.registry now slot sqe : Checked Empty _).toOption
    return { q.setCtx k (some ctx) with registry }
  | .remove cntlid => some { q with registry := (q.registry.remove cntlid).2 }
  | .close k => some (q.setCtx k none)

end Queues

/-! ## Who connected to what -/

structure Creation where
  queue : Nat
  subsysnqn : Nqn
  hostnqn : Nqn
  deriving DecidableEq, Repr

/-- An IO Connect that was accepted: the controller it named, and the admin Connect that had created
the controller then live under that id. -/
structure Binding where
  cntlid : Nat
  hostnqn : Nqn
  creation : Option Creation
  deriving DecidableEq, Repr

structure Recorded (B : Type) where
  queues : Queues B
  creations : Nat → Option Creation
  bindings : Nat → Option Binding
  seen : List (Admin.Tables B)

namespace Recorded

variable {B : Type}

def start (B : Type) (slice : Slice) : Recorded B where
  queues := .start B slice
  creations := fun _ => none
  bindings := fun _ => none
  seen := []

def noteConnect (w : Recorded B) (k : Nat) (before after : ConnCtx (Volume B)) : Recorded B :=
  match before.role, after.role with
  | .admin a, .admin a' =>
    if a.cntlid = 0 ∧ a'.cntlid ≠ 0 then
      { w with creations := Function.update w.creations a'.cntlid (some
          { queue := k
            subsysnqn := nqnStr after.connectData.subsysnqn
            hostnqn := nqnStr after.connectData.hostnqn }) }
    else w
  | .io i, .io i' =>
    if i.cntlid = 0 ∧ i'.cntlid ≠ 0 then
      { w with bindings := Function.update w.bindings k (some
          { cntlid := i'.cntlid
            hostnqn := nqnStr after.connectData.hostnqn
            creation := w.creations i'.cntlid }) }
    else w
  | _, _ => w

def note (w : Recorded B) (a : QueueAction B) (q : Queues B) : Recorded B :=
  match a with
  | .command k tables _ _ _ =>
    let w' := { w with queues := q, seen := tables :: w.seen }
    match w.queues.ctxs k, q.ctxs k with
    | some before, some after => w'.noteConnect k before after
    | _, _ => w'
  | .remove cntlid =>
    { w with queues := q, creations := Function.update w.creations cntlid none }
  | _ => { w with queues := q }

def step [Backend B] (port : PortConfig) (w : Recorded B) (a : QueueAction B) :
    Option (Recorded B) :=
  (w.queues.step port a).map (w.note a)

end Recorded

end Ioutgt.Target
