import Mathlib.Logic.Function.Basic

/-!
# The op slab of a reactor

Every submitted operation has an entry in the slab, under the key that its completions carry, until
its terminal completion has been seen. `reap` routes completions to the entries and wakes the tasks
that wait for them.

Keys here are never used twice; tasks are numbers, and a waker is the task it wakes.
-/

namespace Ioutgt.Uring

structure CqeResult where
  result : Int
  more : Bool
  deriving DecidableEq, Repr

/-- A completion in the ring; a cancellation's carries no key. -/
structure Cqe where
  key : Option Nat
  result : CqeResult
  deriving DecidableEq, Repr

structure OpEntry where
  results : List CqeResult
  waker : Option Nat
  terminated : Bool
  orphaned : Bool
  deriving DecidableEq, Repr

def OpEntry.new : OpEntry where
  results := []
  waker := none
  terminated := false
  orphaned := false

structure Slab where
  entries : Nat → Option OpEntry
  len : Nat

namespace Slab

def empty : Slab where
  entries := fun _ => none
  len := 0

def isEmpty (s : Slab) : Bool := s.len = 0

def insert (s : Slab) (key : Nat) (e : OpEntry) : Slab where
  entries := Function.update s.entries key (some e)
  len := s.len + 1

def put (s : Slab) (key : Nat) (e : OpEntry) : Slab :=
  { s with entries := Function.update s.entries key (some e) }

def remove (s : Slab) (key : Nat) : Slab where
  entries := Function.update s.entries key none
  len := s.len - 1

def route (s : Slab) (cqe : Cqe) : Slab × Option Nat :=
  match cqe.key with
  | none => (s, none)
  | some key =>
    match s.entries key with
    | none => (s, none)
    | some e =>
      let e := { e with terminated := e.terminated || !cqe.result.more }
      if e.orphaned then (if e.terminated then s.remove key else s.put key e, none)
      else (s.put key { e with results := e.results ++ [cqe.result], waker := none }, e.waker)

def reap (s : Slab) : List Cqe → Slab × List Nat
  | [] => (s, [])
  | cqe :: rest =>
    let r := s.route cqe
    let rest := r.1.reap rest
    (rest.1, r.2.toList ++ rest.2)

/-- What polling an operation gives: `Poll<Option<CqeResult>>`. -/
inductive Polled where
  | pending
  | ready (result : CqeResult)
  | ended
  deriving DecidableEq, Repr

/-- `MultiOp::poll_next` by task `task`, of an operation that is not done: what it gives and whether the
operation is done now. -/
def pollNext (s : Slab) (key task : Nat) : Option (Polled × Bool × Slab) :=
  (s.entries key).map fun e =>
    match e.results with
    | r :: rest =>
      if e.terminated && rest.isEmpty then (.ready r, true, s.remove key)
      else (.ready r, false, s.put key { e with results := rest })
    | [] =>
      if e.terminated then (.ended, true, s.remove key)
      else (.pending, false, s.put key { e with waker := some task })

def pollSingle (s : Slab) (key task : Nat) : Option (Polled × Bool × Slab) :=
  (s.entries key).map fun e =>
    match e.results with
    | r :: _ => (.ready r, true, s.remove key)
    | [] => (.pending, false, s.put key { e with waker := some task })

def orphan (s : Slab) (key : Nat) : Slab :=
  match s.entries key with
  | none => s
  | some e =>
    if e.terminated then s.remove key else s.put key { e with orphaned := true, waker := none }

end Slab

end Ioutgt.Uring
