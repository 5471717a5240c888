import Ioutgt.Core.Pool
import Ioutgt.Lib.Run

/-!
# A pool and the tasks that use it

A pool from its creation on, under any sequence of allocations, polls of `alloc_await`, lease drops
and arena reservations. Beside the pool: the leases that are live, every region reserved so far, and
the tasks that are asleep: those whose last poll found too few pages and that nobody has woken since.
-/

namespace Ioutgt.Core

def Run.Holds (r : Run) (page : Nat) : Prop := r.start ≤ page ∧ page < r.start + r.len

instance (r : Run) (page : Nat) : Decidable (r.Holds page) := inferInstanceAs (Decidable (_ ∧ _))

def covers (runs : List Run) (page : Nat) : Nat := runs.countP (·.Holds page)

def Run.Disjoint (a b : Run) : Prop := ∀ page, ¬ (a.Holds page ∧ b.Holds page)

/-- `b` lies behind `a`, with at least one page between them. -/
def Run.Apart (a b : Run) : Prop := a.start + a.len < b.start

structure PoolTasks where
  pool : BufPool Nat
  leases : List (List Run)
  reserved : List Run
  asleep : List Nat

inductive PoolAction where
  | alloc (len : Nat)
  | poll (task len : Nat)
  | drop (i : Nat)
  | reserve (bytes : Nat)
  | setBufIndex (idx : Nat)
  | takeBufIndex
  deriving DecidableEq, Repr

namespace PoolTasks

def start (pool : BufPool Nat) : PoolTasks := ⟨pool, [], [], []⟩

def step (s : PoolTasks) : PoolAction → Option PoolTasks
  | .alloc len =>
    match s.pool.alloc len with
    | some (segs, pool) => some { s with pool, leases := s.leases ++ [segs] }
    | none => some s
  | .poll task len =>
    match s.pool.allocAwait len task with
    | (some segs, pool) =>
      some { s with pool, leases := s.leases ++ [segs], asleep := s.asleep.filter (· != task) }
    | (none, pool) => some { s with pool, asleep := s.asleep.filter (· != task) ++ [task] }
  | .drop i =>
    match s.leases[i]? with
    | some segs =>
      let (woken, pool) := s.pool.freeSegs segs
      some { s with
        pool
        leases := s.leases.eraseIdx i
        asleep := s.asleep.filter (· ∉ woken) }
    | none => none
  | .reserve bytes =>
    match s.pool.reserveArena bytes with
    | some pool => some { s with pool, reserved := s.reserved ++ pool.sendArena.toList }
    | none => some s
  | .setBufIndex idx => some { s with pool := s.pool.setBufIndex idx }
  | .takeBufIndex => some { s with pool := s.pool.takeBufIndex.2 }

def runs (s : PoolTasks) : List Run := s.pool.free ++ s.leases.flatten ++ s.reserved

end PoolTasks

end Ioutgt.Core
