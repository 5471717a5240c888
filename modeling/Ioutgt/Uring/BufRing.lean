import Mathlib.Logic.Function.Basic
import Ioutgt.Lib.Checked
import Ioutgt.Lib.Bytes

/-!
# The provided-buffer receive ring

One connection's ring of two sub-buffers, together with the kernel's side of it: the queue of
provided buffers, how far the first of them is filled, and the completions posted and not yet
seen. The kernel fills a provided buffer at increasing offsets and takes the next one only when
this one is full.
-/

namespace Ioutgt.Uring

open Lib

def nbufs : Nat := 2

/-- One received chunk: which buffer the kernel filled and how many bytes; `bufMore` is clear when
the buffer is full and the kernel is done with it. -/
structure RecvChunk where
  bid : Nat
  len : Nat
  bufMore : Bool
  deriving DecidableEq, Repr

structure SubBuf where
  mem : List UInt8
  pending : Nat
  awaiting : Bool
  recvOff : Nat

structure BufRing where
  bufSize : Nat
  bufs : Nat → SubBuf
  /-- Kernel side: buffers provided, the one being filled first. -/
  provided : List Nat
  /-- Kernel side: bytes filled in the first provided buffer. -/
  filled : Nat
  /-- Kernel side: completions posted and not yet seen. -/
  cqes : List RecvChunk

namespace BufRing

variable {ε : Type}

def new (bufSize : Nat) : BufRing where
  bufSize := bufSize
  bufs := fun _ => ⟨List.replicate bufSize 0, 0, false, 0⟩
  provided := List.range nbufs
  filled := 0
  cqes := []

def put (r : BufRing) (bid : Nat) (b : SubBuf) : BufRing :=
  { r with bufs := Function.update r.bufs bid b }

def kernelProvide (r : BufRing) (bid : Nat) : Checked ε BufRing := do
  Checked.require ((r.bufs bid).pending = 0) .assertFailed
  let r := r.put bid { r.bufs bid with awaiting := false, recvOff := 0 }
  return { r with provided := r.provided ++ [bid] }

def borrow (r : BufRing) (bid : Nat) : BufRing :=
  r.put bid { r.bufs bid with pending := (r.bufs bid).pending + 1 }

/-- A borrowing write finished: the buffer goes back once the recv loop is also done with it and
no borrows remain. -/
def release (r : BufRing) (bid : Nat) : Checked ε BufRing := do
  Checked.require ((r.bufs bid).pending > 0) .assertFailed
  let n := (r.bufs bid).pending - 1
  let r := r.put bid { r.bufs bid with pending := n }
  if n = 0 ∧ (r.bufs bid).awaiting then r.kernelProvide bid else return r

def recvAdvance (r : BufRing) (bid len : Nat) : BufRing :=
  r.put bid { r.bufs bid with recvOff := (r.bufs bid).recvOff + len }

def recvDone (r : BufRing) (bid : Nat) : Checked ε BufRing :=
  if (r.bufs bid).pending = 0 then r.kernelProvide bid
  else return r.put bid { r.bufs bid with awaiting := true }

/-- The kernel has written `bs` behind what it had filled of `bid`, the first of the buffers
provided; a buffer that is full leaves the kernel's queue. -/
def fillHead (r : BufRing) (bid : Nat) (rest : List Nat) (bs : List UInt8) : BufRing :=
  let full : Bool := r.filled + bs.length == r.bufSize
  let b := r.bufs bid
  { r.put bid { b with mem := blit b.mem r.filled bs } with
    provided := if full then rest else bid :: rest
    filled := if full then 0 else r.filled + bs.length
    cqes := r.cqes ++ [⟨bid, bs.length, !full⟩] }

/-- The kernel receives `bs` into the buffer it is filling and posts the completion. -/
def kernelFill (r : BufRing) (bs : List UInt8) : Option BufRing :=
  match r.provided with
  | [] => none
  | bid :: rest =>
    if bs ≠ [] ∧ r.filled + bs.length ≤ r.bufSize then some (r.fillHead bid rest bs) else none

end BufRing

/-- The ring chunk currently being consumed: `len` bytes from `off` on, `pos` of them consumed. -/
structure Cur where
  bid : Nat
  off : Nat
  len : Nat
  pos : Nat
  bufMore : Bool
  deriving DecidableEq, Repr

structure RingMode where
  ring : BufRing
  cur : Option Cur

namespace RingMode

variable {ε : Type}

def consume (m : RingMode) : RingMode :=
  { m with cur := m.cur.map fun c => { c with pos := c.len } }

/-- The first part of `fill_bid`: a chunk that is fully consumed is given up. -/
def retire (m : RingMode) : Checked ε RingMode :=
  match m.cur with
  | none => return m
  | some c =>
    if c.pos < c.len then return m
    else if !c.bufMore then do
      let ring ← m.ring.recvDone c.bid
      return { ring, cur := none }
    else return { m with cur := none }

/-- The completion `chunk` becomes the window, and `rest` are the completions behind it. -/
def observed (m : RingMode) (chunk : RecvChunk) (rest : List RecvChunk) : RingMode :=
  let off := (m.ring.bufs chunk.bid).recvOff
  let ring := { m.ring with cqes := rest }
  let ring := if chunk.bufMore then ring.recvAdvance chunk.bid chunk.len else ring
  { ring, cur := some ⟨chunk.bid, off, chunk.len, 0, chunk.bufMore⟩ }

/-- The rest of `fill_bid`: take the next completion. -/
def observe (m : RingMode) : Option RingMode :=
  match m.cur, m.ring.cqes with
  | none, chunk :: rest => some (m.observed chunk rest)
  | _, _ => none

end RingMode

end Ioutgt.Uring
