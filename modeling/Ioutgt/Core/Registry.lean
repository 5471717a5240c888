import Mathlib.Logic.Function.Basic
import Ioutgt.Lib.Checked

/-!
# The controller registry

Which controllers live on a port, which queues each has installed, and who they belong to. Strings
are their UTF-8 bytes. The shared liveness flag of a controller is named by a number of its own;
what it holds is not the registry's.
-/

namespace Ioutgt.Core

open Lib

abbrev Nqn : Type := List UInt8

structure QueueInfo where
  qid : Nat
  sqsize : Nat
  tid : Int
  cpus : List UInt8
  peer : List UInt8
  deriving DecidableEq, Repr

structure ControllerEntry where
  cntlid : Nat
  subsysNqn : Nqn
  hostnqn : Nqn
  maxQid : Nat
  katoMs : Nat
  queues : List QueueInfo
  discovery : Bool
  traffic : Nat
  deriving DecidableEq, Repr

def cntlidMax : Nat := 0xFFEF

structure Slice where
  min : Nat
  max : Nat
  valid : 1 ≤ min ∧ min ≤ max ∧ max ≤ cntlidMax

structure Registry where
  slice : Slice
  nextCntlid : Nat
  controllers : Nat → Option ControllerEntry
  nextTraffic : Nat

inductive IoConnectError where
  | unknownController
  | hostMismatch
  | queueExists
  | invalidQid
  deriving DecidableEq, Repr

namespace Registry

variable {ε : Type}

def ofSlice (slice : Slice) : Registry where
  slice := slice
  nextCntlid := slice.min
  controllers := fun _ => none
  nextTraffic := 0

def new (cntlidMin cntlidMax : Nat) : Checked ε Registry :=
  if valid : 1 ≤ cntlidMin ∧ cntlidMin ≤ cntlidMax ∧ cntlidMax ≤ Core.cntlidMax then
    return ofSlice { min := cntlidMin, max := cntlidMax, valid }
  else Checked.abort .assertFailed

structure Request where
  subsysNqn : Nqn
  hostnqn : Nqn
  maxQid : Nat
  katoMs : Nat
  adminQueue : QueueInfo
  discovery : Bool

def Request.entry (q : Request) (cntlid traffic : Nat) : ControllerEntry where
  cntlid := cntlid
  subsysNqn := q.subsysNqn
  hostnqn := q.hostnqn
  maxQid := q.maxQid
  katoMs := q.katoMs
  queues := [q.adminQueue]
  discovery := q.discovery
  traffic := traffic

def span (r : Registry) : Checked ε Nat := do
  let d ← Checked.sub r.slice.max r.slice.min
  Checked.add 32 d 1

def candidate (r : Registry) (span start offset : Nat) : Checked ε Nat := do
  let d ← Checked.sub start r.slice.min
  let d ← Checked.add 32 d offset
  Checked.require (span ≠ 0) .arithOverflow
  let index := d % span
  Checked.require (index < 2 ^ 16) .assertFailed
  Checked.add 16 r.slice.min index

def insert (r : Registry) (q : Request) (cntlid : Nat) : Registry where
  slice := r.slice
  nextCntlid := (cntlid + 1) % 2 ^ 16
  controllers := Function.update r.controllers cntlid (some (q.entry cntlid r.nextTraffic))
  nextTraffic := r.nextTraffic + 1

def scan (r : Registry) (q : Request) (span start : Nat) :
    List Nat → Checked ε (Option Nat × Registry)
  | [] => return (none, r)
  | offset :: rest => do
    let cntlid ← r.candidate span start offset
    match r.controllers cntlid with
    | none => return (some cntlid, r.insert q cntlid)
    | some _ => r.scan q span start rest

def allocate (r : Registry) (q : Request) : Checked ε (Option Nat × Registry) := do
  let span ← r.span
  -- `clamp`
  let start := Nat.max r.slice.min (Nat.min r.nextCntlid r.slice.max)
  r.scan q span start (List.range span)

def setEntry (r : Registry) (cntlid : Nat) (entry : ControllerEntry) : Registry :=
  { r with controllers := Function.update r.controllers cntlid (some entry) }

def installIoQueue (r : Registry) (cntlid : Nat) (hostnqn : Nqn) (queue : QueueInfo) :
    Except IoConnectError ControllerEntry × Registry :=
  match r.controllers cntlid with
  | none => (.error .unknownController, r)
  | some entry =>
    if entry.hostnqn ≠ hostnqn then (.error .hostMismatch, r)
    else if queue.qid = 0 ∨ queue.qid > entry.maxQid then (.error .invalidQid, r)
    else if entry.queues.any (·.qid == queue.qid) then (.error .queueExists, r)
    else
      let entry := { entry with queues := entry.queues ++ [queue] }
      (.ok entry, r.setEntry cntlid entry)

def dropEntry (r : Registry) (cntlid : Nat) : Registry :=
  { r with controllers := Function.update r.controllers cntlid none }

def remove (r : Registry) (cntlid : Nat) : Option ControllerEntry × Registry :=
  match r.controllers cntlid with
  | none => (none, r)
  | some entry => (some entry, r.dropEntry cntlid)

def traffic (r : Registry) (cntlid : Nat) : Option Nat := (r.controllers cntlid).map (·.traffic)

def contains (r : Registry) (cntlid : Nat) : Bool := (r.controllers cntlid).isSome

/-! ## Calls -/

inductive Call where
  | allocate (q : Request)
  | installIoQueue (cntlid : Nat) (hostnqn : Nqn) (queue : QueueInfo)
  | remove (cntlid : Nat)

inductive Answer where
  | allocated (cntlid : Option Nat)
  | installed (entry : Except IoConnectError ControllerEntry)
  | removed (entry : Option ControllerEntry)

/-- The call asked for something it did not get. -/
def Answer.Refused : Answer → Prop
  | allocated cntlid => cntlid = none
  | installed entry => ∃ e, entry = .error e
  | removed entry => entry = none

def call (r : Registry) : Call → Checked ε (Answer × Registry)
  | .allocate q => do
    let (cntlid, r) ← r.allocate q
    return (.allocated cntlid, r)
  | .installIoQueue cntlid hostnqn queue =>
    let (entry, r) := r.installIoQueue cntlid hostnqn queue
    return (.installed entry, r)
  | .remove cntlid =>
    let (entry, r) := r.remove cntlid
    return (.removed entry, r)

end Registry

end Ioutgt.Core
