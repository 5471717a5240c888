import Mathlib.Algebra.Ring.Nat
import Ioutgt.Core.Subsystem
import Ioutgt.Lib.Run

/-!
# The namespace table under concurrency

Control threads change the table under its lock and bump the generation; queue threads revalidate
their cached table with one generation load per command and fetch it under the lock when it is stale.
Each atomic access is a step. A namespace is known by the identity of its backend, fresh for each
addition. A clock counts the steps; beside the threads the table in force at each moment is noted,
with the change that takes force there: a change takes force when it bumps the generation.
-/

namespace Ioutgt.Core

inductive Change where
  | add (ns : Namespace Nat)
  | remove (nsid : Nat)
  deriving DecidableEq, Repr

/-- What a change that succeeded did. -/
inductive Effect where
  | added (ns : Namespace Nat)
  | removed (ns : Namespace Nat)
  deriving DecidableEq, Repr

def Effect.apply : Effect → NsMap Nat → NsMap Nat
  | .added ns, t => ns :: t
  | .removed ns, t => t.filter (·.nsid != ns.nsid)

def Change.swap (s : Subsystem Nat) : Change → Option (NsMap Nat × Effect)
  | .add ns =>
    match s.addNamespace ns with
    | .ok s' => some (s'.namespaces, .added ns)
    | .error _ => none
  | .remove nsid =>
    match s.removeNamespace nsid, s.namespaces.get nsid with
    | .ok s', some ns => some (s'.namespaces, .removed ns)
    | _, _ => none

/-- Where a control thread is; `since` is the moment of the call. -/
inductive Ctl where
  | idle
  | called (c : Change) (since : Nat)
  | locked (c : Change) (since : Nat)
  /-- The table is replaced, the generation is not bumped yet. -/
  | swapped (e : Effect) (since : Nat)
  | bumped (e : Effect) (since forced : Nat)
  | unlocked (e : Effect) (since forced : Nat)
  deriving DecidableEq, Repr

/-- A change that has returned success: the moments of its call, of its taking force and of its
return. -/
structure Done where
  effect : Effect
  called : Nat
  forced : Nat
  returned : Nat
  deriving DecidableEq, Repr

/-- A command: the namespace it names and the moment it starts. -/
structure Ask where
  nsid : Nat
  start : Nat
  deriving DecidableEq, Repr

/-- Where a queue thread is in `execute`. -/
inductive QueuePc where
  | idle
  | started (r : Ask)
  | loaded (r : Ask) (generation : Nat)
  | got (r : Ask) (table : NsMap Nat)
  deriving DecidableEq, Repr

structure NsQueue where
  cache : NsCache Nat
  pc : QueuePc

/-- A command that has looked its namespace up. -/
structure Ran where
  ask : Ask
  lookup : Nat
  table : NsMap Nat
  found : Option (Namespace Nat)
  deriving DecidableEq, Repr

structure World where
  subsys : Subsystem Nat
  writer : Option Nat
  control : Nat → Ctl
  queues : Nat → NsQueue
  nextId : Nat
  clock : Nat
  versions : Nat → NsMap Nat
  /-- The table in force at each moment. -/
  force : Nat → NsMap Nat
  /-- The change that takes force between a moment and the next. -/
  moments : Nat → Option Effect
  returned : List Done
  commands : List Ran

inductive NsAction where
  | callAdd (t nsid : Nat)
  | callRemove (t nsid : Nat)
  | lock (t : Nat)
  | check (t : Nat)
  | bump (t : Nat)
  | unlock (t : Nat)
  | ret (t : Nat)
  | start (q nsid : Nat)
  | load (q : Nat)
  | fetch (q : Nat)
  | lookup (q : Nat)
  deriving DecidableEq, Repr

def NsCache.fresh {B : Type} (c : NsCache B) (generation : Nat) : Bool :=
  c.map.isSome && c.generation == generation

namespace World

def init (table : NsMap Nat) : World where
  subsys := .new table
  writer := none
  control := fun _ => .idle
  queues := fun _ => ⟨{}, .idle⟩
  nextId := (table.map Namespace.backend).sum + 1
  clock := 0
  versions := fun _ => table
  force := fun _ => table
  moments := fun _ => none
  returned := []
  commands := []

def setCtl (w : World) (t : Nat) (c : Ctl) : World :=
  { w with control := Function.update w.control t c }

def setPc (w : World) (q : Nat) (pc : QueuePc) : World :=
  { w with queues := Function.update w.queues q { w.queues q with pc } }

def act (w : World) : NsAction → Option World
  | .callAdd t nsid =>
    match w.control t with
    | .idle =>
      some { w.setCtl t (.called (.add ⟨nsid, w.nextId⟩) w.clock) with nextId := w.nextId + 1 }
    | _ => none
  | .callRemove t nsid =>
    match w.control t with
    | .idle => some (w.setCtl t (.called (.remove nsid) w.clock))
    | _ => none
  | .lock t =>
    match w.control t, w.writer with
    | .called c since, none => some { w.setCtl t (.locked c since) with writer := some t }
    | _, _ => none
  | .check t =>
    match w.control t with
    | .locked c since =>
      match c.swap w.subsys with
      | some (table, e) =>
        some { w.setCtl t (.swapped e since) with subsys := { w.subsys with namespaces := table } }
      | none => some { w.setCtl t .idle with writer := none }
    | _ => none
  | .bump t =>
    match w.control t with
    | .swapped e since =>
      some { w.setCtl t (.bumped e since w.clock) with
        subsys := { w.subsys with generation := w.subsys.generation + 1 }
        versions := Function.update w.versions (w.subsys.generation + 1) w.subsys.namespaces
        moments := Function.update w.moments w.clock (some e) }
    | _ => none
  | .unlock t =>
    match w.control t with
    | .bumped e since forced => some { w.setCtl t (.unlocked e since forced) with writer := none }
    | _ => none
  | .ret t =>
    match w.control t with
    | .unlocked e since forced =>
      some { w.setCtl t .idle with returned := w.returned ++ [⟨e, since, forced, w.clock⟩] }
    | _ => none
  | .start q nsid =>
    match (w.queues q).pc with
    | .idle => some (w.setPc q (.started ⟨nsid, w.clock⟩))
    | _ => none
  | .load q =>
    match (w.queues q).pc with
    | .started r => some (w.setPc q (.loaded r w.subsys.generation))
    | _ => none
  | .fetch q =>
    match (w.queues q).pc with
    | .loaded r generation =>
      -- a stale table is fetched under the lock
      if (w.queues q).cache.fresh generation ∨ w.writer = none then
        let x := (w.queues q).cache.get generation w.subsys.namespaces
        some { w with queues := Function.update w.queues q ⟨x.1, .got r x.2⟩ }
      else none
    | _ => none
  | .lookup q =>
    match (w.queues q).pc with
    | .got r table =>
      some { w.setPc q .idle with
        commands := w.commands ++ [⟨r, w.clock, table, table.get r.nsid⟩] }
    | _ => none

def tick (w : World) : World :=
  { w with
    clock := w.clock + 1
    force := Function.update w.force (w.clock + 1) (w.versions w.subsys.generation) }

def step (w : World) (a : NsAction) : Option World := (w.act a).map tick

end World

end Ioutgt.Core
