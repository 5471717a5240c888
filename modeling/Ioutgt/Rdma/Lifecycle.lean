import Ioutgt.Target.Queues

/-!
# The life of RDMA connections on a queue thread

What a connection's task takes hold of on its way (`run_conn`, `RdmaQueue::new`, `bootstrap`, `run`)
and what `teardown` gives back: an index of the ring's fixed-buffer table, a park probe of the
reactor, and a controller in the registry. The connections of a thread share the table and the
probes; the registry is the port's. Every step of a task that can fail may fail; a task that returns
early drops its queue and nothing else.

Which task created a live controller is put on record.
-/

namespace Ioutgt.Rdma

open Lib Ioutgt.Core Ioutgt.Nvme Ioutgt.Target

inductive Stage where
  /-- Device, channel, CQ, QP and its transitions, and the pool's memory region. -/
  | build
  | register
  /-- The memory regions of the capsule, response and Connect-data buffers. -/
  | regions
  | prime
  | accept
  /-- The Connect capsule, its re-posted RECV and the READ of its data. -/
  | await
  | dispatch
  | respond
  | pollAddMulti
  | sleep
  | installParkProbe
  | reaping
  | draining
  | returned
  | leaked
  deriving DecidableEq, Repr

def Stage.next : Stage → Option Stage
  | .build => some .register
  | .regions => some .prime
  | .prime => some .accept
  | .accept => some .await
  | .await => some .dispatch
  | .respond => some .pollAddMulti
  | .pollAddMulti => some .sleep
  | .sleep => some .installParkProbe
  | _ => none

def Stage.Underway : Stage → Prop
  | .draining => False
  | .returned => False
  | .leaked => False
  | _ => True

instance : ∀ s : Stage, Decidable s.Underway
  | .draining => .isFalse id
  | .returned => .isFalse id
  | .leaked => .isFalse id
  | .build | .register | .regions | .prime | .accept | .await | .dispatch | .respond
  | .pollAddMulti | .sleep | .installParkProbe | .reaping => .isTrue trivial

def controllerOf {B : Type} (ctx : ConnCtx B) : Option Nat :=
  match ctx.role with
  | .admin a => if a.cntlid = 0 then none else some a.cntlid
  | .io _ => none

structure ConnTask (B : Type) where
  stage : Stage
  registered : Option Nat
  bufIndex : Option Nat
  ctx : Option (ConnCtx (Volume B))
  probe : Option Nat

def ConnTask.new (B : Type) : ConnTask B where
  stage := .build
  registered := none
  bufIndex := none
  ctx := none
  probe := none

def ConnTask.controller {B : Type} (t : ConnTask B) : Option Nat := t.ctx.bind controllerOf

/-- A command of this queue can be under way while its task drains: on an admin queue without a
controller none ever waits, so there is nothing to drain. -/
def hasToDrain {B : Type} (ctx : ConnCtx B) : Bool :=
  match ctx.role with
  | .admin a => a.cntlid != 0
  | .io _ => true

structure Thread (B : Type) where
  /-- Free indices of the fixed-buffer table, the next one first. -/
  freeBufs : List Nat
  parkProbes : List Nat
  nextProbeId : Nat
  registry : Registry
  tasks : Nat → Option (ConnTask B)
  /-- Which task's Connect created each live controller. -/
  creator : Nat → Option Nat

inductive ConnAction (B : Type) where
  | spawn (k : Nat)
  | advance (k : Nat) (ok : Bool)
  /-- Task `k` dispatches the first command, with the data it read. -/
  | connect (k : Nat) (conn : QueueConn) (tables : Admin.Tables B) (now : Nat) (slot : SlotView)
      (sqe : Sqe)
  | command (k : Nat) (tables : Admin.Tables B) (now : Nat) (slot : SlotView) (sqe : Sqe)
  | stop (k : Nat)
  | drained (k : Nat)
  /-- They are not, in time. -/
  | timedOut (k : Nat)

namespace Thread

variable {B : Type}

def start (B : Type) (freeBufs : List Nat) (slice : Slice) : Thread B where
  freeBufs := freeBufs
  parkProbes := []
  nextProbeId := 0
  registry := .ofSlice slice
  tasks := fun _ => none
  creator := fun _ => none

def setTask (s : Thread B) (k : Nat) (t : ConnTask B) : Thread B :=
  { s with tasks := Function.update s.tasks k (some t) }

def registerBuffer (s : Thread B) (k : Nat) (t : ConnTask B) (ok : Bool) : Thread B :=
  match ok, s.freeBufs with
  | true, idx :: rest =>
    { s with freeBufs := rest }.setTask k
      { t with stage := .regions, registered := some idx, bufIndex := some idx }
  | _, _ => s.setTask k { t with stage := .regions }

def advance (s : Thread B) (k : Nat) (t : ConnTask B) (ok : Bool) : Option (Thread B) :=
  match t.stage with
  | .register => some (s.registerBuffer k t ok)
  | .installParkProbe =>
    if ok then
      some ({ s with
          parkProbes := s.parkProbes ++ [s.nextProbeId]
          nextProbeId := s.nextProbeId + 1 }.setTask k
        { t with stage := .reaping, probe := some s.nextProbeId })
    else some (s.setTask k { t with stage := .returned })
  | stage => stage.next.map fun next =>
      s.setTask k { t with stage := if ok then next else .returned }

/-- The record of creators, when the controller of task `k` was the first and is the second. -/
def noteCreator (creator : Nat → Option Nat) (k : Nat) : Option Nat → Option Nat → Nat → Option Nat
  | none, some cntlid => Function.update creator cntlid (some k)
  | _, _ => creator

def dispatched (s : Thread B) (k : Nat) (t : ConnTask B) (stage : Stage)
    (before after : ConnCtx (Volume B)) (registry : Registry) : Thread B :=
  { s with
    registry
    creator := noteCreator s.creator k (controllerOf before) (controllerOf after) }.setTask k
      { t with stage, ctx := some after }

def removeController (s : Thread B) : Option Nat → Thread B
  | none => s
  | some cntlid =>
    { s with
      registry := (s.registry.remove cntlid).2
      creator := Function.update s.creator cntlid none }

def stop (s : Thread B) (k : Nat) (t : ConnTask B) : Thread B :=
  let s := { s with parkProbes := s.parkProbes.filter fun id => some id ≠ t.probe }
  (s.removeController t.controller).setTask k { t with stage := .draining }

def giveBack (s : Thread B) (k : Nat) (t : ConnTask B) : Thread B :=
  { s with freeBufs := t.bufIndex.toList ++ s.freeBufs }.setTask k
    { t with stage := .returned, bufIndex := none }

variable [Backend B]

def step (port : PortConfig) (s : Thread B) : ConnAction B → Option (Thread B)
  | .spawn k => if (s.tasks k).isNone then some (s.setTask k (.new B)) else none
  | .advance k ok => (s.tasks k).bind fun t => s.advance k t ok
  | .connect k conn tables now slot sqe => do
    let t ← s.tasks k
    if t.stage = .dispatch then
      let ctx := conn.ctx port now
      let (_, ctx', registry) ←
        (execute ctx tables s.registry now slot sqe : Checked Empty _).toOption
      return s.dispatched k t .respond ctx ctx' registry
    else none
  | .command k tables now slot sqe => do
    let t ← s.tasks k
    let ctx ← t.ctx
    if t.stage = .reaping ∨ t.stage = .draining ∧ hasToDrain ctx then
      let (_, ctx', registry) ←
        (execute ctx tables s.registry now slot sqe : Checked Empty _).toOption
      return s.dispatched k t t.stage ctx ctx' registry
    else none
  | .stop k => (s.tasks k).bind fun t => if t.stage = .reaping then some (s.stop k t) else none
  | .drained k =>
    (s.tasks k).bind fun t => if t.stage = .draining then some (s.giveBack k t) else none
  | .timedOut k => (s.tasks k).bind fun t =>
      if t.stage = .draining then some (s.setTask k { t with stage := .leaked }) else none

end Thread

/-- **Nothing of task `k` is left**: its index is free, its probe gone, and the controller its Connect
created not in the registry. -/
structure Thread.Clean {B : Type} (s : Thread B) (k : Nat) (t : ConnTask B) : Prop where
  index : ∀ idx, t.registered = some idx → idx ∈ s.freeBufs
  probe : ∀ id, t.probe = some id → id ∉ s.parkProbes
  controller : ∀ cntlid, s.creator cntlid = some k → s.registry.contains cntlid = false

end Ioutgt.Rdma
