import Ioutgt.Core.SlotQ

/-!
# The data-buffer pool

A per-queue arena of pages with a coalescing free-run allocator. A lease is the list of page runs it
was given: one run when some run is large enough, otherwise up to `MAX_SEGS` runs from the front of the
free list. A task that finds too few pages parks its waker; every return of pages wakes all of them.
Wakers are of any type.
-/

namespace Ioutgt.Core

def page : Nat := 4096

structure Run where
  start : Nat
  len : Nat
  deriving DecidableEq, Repr

def Run.bytes (arena : Nat → UInt8) (r : Run) : List UInt8 :=
  (List.range (r.len * page)).map fun i => arena (r.start * page + i)

def pagesIn (runs : List Run) : Nat := (runs.map Run.len).sum

def pagesOf (len : Nat) : Nat := max 1 ((len + (page - 1)) / page)

/-- Merge `run` with the following run, when that starts where `run` ends. -/
def mergeNext (run : Run) : List Run → Run × List Run
  | [] => (run, [])
  | next :: rest =>
    if run.start + run.len = next.start then (⟨run.start, run.len + next.len⟩, rest)
    else (run, next :: rest)

def mergePrev (before : List Run) (run : Run) : List Run :=
  match before.getLast? with
  | none => [run]
  | some prev =>
    if prev.start + prev.len = run.start then before.dropLast ++ [⟨prev.start, prev.len + run.len⟩]
    else before ++ [run]

/-- Insert `run` into the sorted free list, coalescing with the following run, then with the
preceding one. -/
def insertRun (free : List Run) (run : Run) : List Run :=
  let before := free.takeWhile (·.start < run.start)
  let merged := mergeNext run (free.dropWhile (·.start < run.start))
  mergePrev before merged.1 ++ merged.2

/-- What is left of `r` when `pages` are taken from its front: nothing, if it was taken whole. -/
def Run.carved (r : Run) (pages : Nat) : List Run :=
  if r.len = pages then [] else [⟨r.start + pages, r.len - pages⟩]

def firstFit (pages : Nat) : List Run → Option (Run × List Run)
  | [] => none
  | r :: rest =>
    if pages ≤ r.len then some (⟨r.start, pages⟩, r.carved pages ++ rest)
    else (firstFit pages rest).map fun p => (p.1, r :: p.2)

/-- The first pass of the scatter path: `need` pages fit in the runs at the front, `count` of
`MAX_SEGS` being used already. -/
def scatterFits : List Run → (need count : Nat) → Bool
  | [], need, _ => need = 0
  | r :: rest, need, count =>
    if need = 0 then true
    else if count + 1 > SlotData.maxSegs then false
    else scatterFits rest (need - r.len) (count + 1)

/-- The second pass: carve `need` pages from the front. Every run taken is whole except the last. -/
def scatter : List Run → (need : Nat) → List Run × List Run
  -- the list does not run out: the first pass counted the pages
  | [], _ => ([], [])
  | r :: rest, need =>
    if need = 0 then ([], r :: rest)
    else if need ≤ r.len then ([⟨r.start, need⟩], r.carved need ++ rest)
    else
      let p := scatter rest (need - r.len)
      (r :: p.1, p.2)

structure BufPool (W : Type) where
  npages : Nat
  free : List Run
  freePages : Nat
  waiters : List W
  bufIndex : Option Nat
  sendArena : Option Run

namespace BufPool

variable {W : Type}

/-- A pool of `bytes` rounded up to whole pages; `none` is the panic when their number does not fit 32
bits. -/
def new (bytes : Nat) : Option (BufPool W) :=
  let npages := pagesOf bytes
  if npages < 2 ^ 32 then
    some { npages, free := [⟨0, npages⟩], freePages := npages, waiters := [], bufIndex := none,
           sendArena := none }
  else none

def setBufIndex (p : BufPool W) (idx : Nat) : BufPool W := { p with bufIndex := some idx }

def takeBufIndex (p : BufPool W) : Option Nat × BufPool W :=
  (p.bufIndex, { p with bufIndex := none })

/-- Permanently reserve `bytes` of contiguous arena. `none` when the pool is not registered or has no
contiguous run that large; the pool is then as before. -/
def reserveArena (p : BufPool W) (bytes : Nat) : Option (BufPool W) :=
  if p.bufIndex = none ∨ pagesOf bytes ≥ 2 ^ 32 then none
  else
    match firstFit (pagesOf bytes) p.free with
    | none => none
    | some (region, free) =>
      some { p with free, freePages := p.freePages - pagesOf bytes, sendArena := some region }

def alloc (p : BufPool W) (len : Nat) : Option (List Run × BufPool W) :=
  let pages := pagesOf len
  if pages ≥ 2 ^ 32 then none
  else if p.freePages < pages then none
  else
    match firstFit pages p.free with
    | some (run, free) => some ([run], { p with free, freePages := p.freePages - pages })
    | none =>
      if scatterFits p.free pages 0 then
        let s := scatter p.free pages
        some (s.1, { p with free := s.2, freePages := p.freePages - pages })
      else none

/-- A poll of `alloc_await`: the lease, or the waker is left behind. -/
def allocAwait (p : BufPool W) (len : Nat) (waker : W) : Option (List Run) × BufPool W :=
  match p.alloc len with
  | some (segs, p) => (some segs, p)
  | none => (none, { p with waiters := p.waiters ++ [waker] })

/-- Return leased pages to the free list; with the wakers of everyone parked, who are woken. -/
def freeSegs (p : BufPool W) (segs : List Run) : List W × BufPool W :=
  (p.waiters, { p with
    free := segs.foldl insertRun p.free
    freePages := p.freePages + pagesIn segs
    waiters := [] })

def arenaPages (p : BufPool W) : Nat := (p.sendArena.map Run.len).getD 0

/-- Drop a slot's data buffer (`SlotData::drop`): a pool lease, which has pages, goes back to the
pool; a private or empty buffer has none of the pool's. -/
def dropLease (p : BufPool W) (segs : List Run) : BufPool W :=
  if segs = [] then p else (p.freeSegs segs).2

end BufPool

end Ioutgt.Core
