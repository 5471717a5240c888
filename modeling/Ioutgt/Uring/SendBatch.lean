import Ioutgt.Lib.Memory

/-!
# Gather-send staging

A header arena and a list of iovecs that reference payload bytes in place. The list is shipped as one
vectored send; after a short send it is advanced in place.
-/

namespace Ioutgt.Uring

open Lib

def uioMaxiov : Nat := 1024

structure Iovec where
  base : Nat
  len : Nat
  deriving DecidableEq, Repr

structure GatherBatch where
  arenaPtr : Nat
  arenaLen : Nat
  bufIndex : Option Nat
  arenaUsed : Nat
  iovs : List Iovec
  iovCap : Nat
  live : Nat
  payloadBytes : Nat
  payloadItems : Nat
  deriving DecidableEq, Repr

namespace GatherBatch

def build (arenaPtr arenaLen : Nat) (bufIndex : Option Nat) (iovCap : Nat) : GatherBatch where
  arenaPtr := arenaPtr
  arenaLen := arenaLen
  bufIndex := bufIndex
  arenaUsed := 0
  iovs := []
  iovCap := min iovCap uioMaxiov
  live := 0
  payloadBytes := 0
  payloadItems := 0

def new (arenaPtr arenaBytes iovCap : Nat) : GatherBatch :=
  build arenaPtr (max arenaBytes 4096) none iovCap

def fromPoolArena (ptr len bufIndex iovCap : Nat) : GatherBatch :=
  build ptr len (some bufIndex) iovCap

def reset (g : GatherBatch) : GatherBatch :=
  { g with arenaUsed := 0, iovs := [], live := 0, payloadBytes := 0, payloadItems := 0 }

def notePayload (g : GatherBatch) (bytes : Nat) : GatherBatch :=
  { g with payloadBytes := g.payloadBytes + bytes, payloadItems := g.payloadItems + 1 }

def avgPayload (g : GatherBatch) : Nat :=
  if g.payloadItems = 0 then 0 else g.payloadBytes / g.payloadItems

def fits (g : GatherBatch) (arenaNeed iovsNeed : Nat) : Bool :=
  g.arenaUsed + arenaNeed ≤ g.arenaLen && g.iovs.length + iovsNeed ≤ g.iovCap

def pushRaw (g : GatherBatch) (ptr len : Nat) : GatherBatch :=
  if len = 0 then g
  else
    match g.iovs.getLast? with
    | some last =>
      if last.base + last.len = ptr then
        { g with iovs := g.iovs.dropLast ++ [{ last with len := last.len + len }] }
      else { g with iovs := g.iovs ++ [⟨ptr, len⟩] }
    | none => { g with iovs := g.iovs ++ [⟨ptr, len⟩] }

def pushArena (g : GatherBatch) (len : Nat) : GatherBatch :=
  { g with arenaUsed := g.arenaUsed + len }.pushRaw (g.arenaPtr + g.arenaUsed) len

def liveIov (g : GatherBatch) : List Iovec := g.iovs.drop g.live

/-- Skip the entries that `sent` bytes cover and bump the partial one in place: the entries, how many
were skipped and whether all of them were. -/
def advanceIovecs : List Iovec → Nat → List Iovec × Nat × Bool
  | [], _ => ([], 0, true)
  | e :: es, sent =>
    if sent < e.len then (⟨e.base + sent, e.len - sent⟩ :: es, 0, false)
    else
      let r := advanceIovecs es (sent - e.len)
      (e :: r.1, r.2.1 + 1, r.2.2)

def advance (g : GatherBatch) (sent : Nat) : GatherBatch × Bool :=
  let r := advanceIovecs g.liveIov sent
  ({ g with iovs := g.iovs.take g.live ++ r.1, live := g.live + r.2.1 }, r.2.2)

end GatherBatch

def gathered (m : Memory) (iovs : List Iovec) : List UInt8 :=
  iovs.flatMap fun e => m.load e.base e.len

end Ioutgt.Uring
