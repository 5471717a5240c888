import Ioutgt.Lib.Scatter
import Ioutgt.Backend.Store

/-!
# The memory backend

The store is cut into chunks that are allocated on the first write; a chunk that is not there reads
as zeroes. The operations work on one chunk after the other, each with a closure of its own. The
artificial delay of a write is a wait and is left out.
-/

namespace Ioutgt.Backend

open Lib Ioutgt.Core

abbrev Chunk : Type := Option (Buf chunkSize)

def chunkCount (bytes : Nat) : Nat := (bytes + chunkSize - 1) / chunkSize

structure MemoryBackend where
  blockShift : Nat
  nrBlocks : Nat
  chunks : Vector Chunk (chunkCount (nrBlocks <<< blockShift))
  blockShift_lt : blockShift < 64
  bytes_lt : nrBlocks <<< blockShift < 2 ^ 64

/-- Apply `f` to each (chunk, in-chunk range) that overlaps the `remaining` bytes from `pos` on.
`f` is given where in the caller's buffer the range starts, and `s` is what it has captured. -/
def forEachChunk {σ : Type} {n : Nat}
    (f : σ → Chunk → Nat → Nat → Nat → Checked Empty (Except BackendError Unit × σ × Chunk)) :
    Nat → Nat → Nat → Nat → σ → Vector Chunk n →
      Checked Empty (Except BackendError Unit × σ × Vector Chunk n)
  | _, 0, _, _, s, chunks => .ok (.ok (), s, chunks)
  | 0, _ + 1, _, _, _, _ => Checked.abort .outOfFuel
  | fuel + 1, remaining + 1, pos, bufOff, s, chunks =>
    let chunkIdx := pos >>> chunkShift
    let inChunk := pos &&& (chunkSize - 1)
    let take := Nat.min (remaining + 1) (chunkSize - inChunk)
    if h : chunkIdx < n then do
      let r ← f s chunks[chunkIdx] inChunk take bufOff
      let chunks := chunks.set chunkIdx r.2.2
      match r.1 with
      | .error e => return (.error e, r.2.1, chunks)
      | .ok () =>
        let pos ← Checked.add 64 pos take
        let bufOff ← Checked.add 64 bufOff take
        let remaining ← Checked.sub (remaining + 1) take
        forEachChunk f fuel remaining pos bufOff r.2.1 chunks
    else Checked.abort .indexOutOfBounds

/-- `dst[off..off + src.len()].copy_from_slice(src)`. -/
def copyInto (dst : List UInt8) (off : Nat) (src : List UInt8) : Checked Empty (List UInt8) := do
  Checked.require (off + src.length ≤ dst.length) .indexOutOfBounds
  return blit dst off src

def copyFrom (src : List UInt8) (off len : Nat) : Checked Empty (List UInt8) := do
  Checked.require (off + len ≤ src.length) .indexOutOfBounds
  return slice src off len

/-- `copy_from_slice` on a chunk. -/
def copyIntoChunk (data : Buf chunkSize) (off : Nat) (src : List UInt8) :
    Checked Empty (Buf chunkSize) :=
  match data.write off src with
  | some data => .ok data
  | none => Checked.abort .indexOutOfBounds

namespace MemoryBackend

def new (sizeBytes : UInt64) (blockShift : UInt8) : Checked Empty MemoryBackend :=
  if h : blockShift.toNat < 64 then
    .ok {
      blockShift := blockShift.toNat
      nrBlocks := sizeBytes.toNat >>> blockShift.toNat
      chunks := Vector.replicate _ none
      blockShift_lt := h
      bytes_lt := by
        rw [Nat.shiftLeft_eq, Nat.shiftRight_eq_div_pow]
        exact Nat.lt_of_le_of_lt (Nat.div_mul_le_self ..) sizeBytes.toNat_lt }
  else Checked.abort .arithOverflow

variable (m : MemoryBackend)

def readChunk (buf : List UInt8) (chunk : Chunk) (inChunk take bufOff : Nat) :
    Checked Empty (Except BackendError Unit × List UInt8 × Chunk) :=
  match chunk with
  | some data => do
    let bytes ← copyFrom data.bytes inChunk take
    let buf ← copyInto buf bufOff bytes
    return (.ok (), buf, some data)
  | none => do
    let buf ← copyInto buf bufOff (List.replicate take 0)
    return (.ok (), buf, none)

def writeChunk (buf : List UInt8) (_ : Unit) (chunk : Chunk) (inChunk take bufOff : Nat) :
    Checked Empty (Except BackendError Unit × Unit × Chunk) := do
  let data := chunk.getD (Buf.zero chunkSize)
  let bytes ← copyFrom buf bufOff take
  let data ← copyIntoChunk data inChunk bytes
  return (.ok (), (), some data)

/-- The closure of `write_zeroes`: a chunk that is not there stays so. -/
def zeroChunk (_ : Unit) (chunk : Chunk) (inChunk take _bufOff : Nat) :
    Checked Empty (Except BackendError Unit × Unit × Chunk) :=
  match chunk with
  | some data => do
    let data ← copyIntoChunk data inChunk (List.replicate take 0)
    return (.ok (), (), some data)
  | none => return (.ok (), (), none)

def read (slba : Nat) (buf : List UInt8) : Checked Empty (Except BackendError Unit × List UInt8) :=
  match checkRange m.nrBlocks slba (buf.length >>> m.blockShift) with
  | .error e => return (.error e, buf)
  | .ok () => do
    let offset ← Checked.shl 64 slba m.blockShift
    let r ← forEachChunk readChunk buf.length buf.length offset 0 buf m.chunks
    return (r.1, r.2.1)

def write (slba : Nat) (buf : List UInt8) :
    Checked Empty (Except BackendError Unit × MemoryBackend) :=
  match checkRange m.nrBlocks slba (buf.length >>> m.blockShift) with
  | .error e => return (.error e, m)
  | .ok () => do
    let offset ← Checked.shl 64 slba m.blockShift
    let r ← forEachChunk (writeChunk buf) buf.length buf.length offset 0 () m.chunks
    return (r.1, { m with chunks := r.2.2 })

def writeZeroes (range : LbaRange) : Checked Empty (Except BackendError Unit × MemoryBackend) :=
  match checkRange m.nrBlocks range.slba range.nlb with
  | .error e => return (.error e, m)
  | .ok () => do
    let offset ← Checked.shl 64 range.slba m.blockShift
    let len ← Checked.shl 64 range.nlb m.blockShift
    let r ← forEachChunk zeroChunk len len offset 0 () m.chunks
    return (r.1, { m with chunks := r.2.2 })

end MemoryBackend

/-! ## Histories -/

inductive MemOp where
  | readSegs (slba : Nat) (segs : List (List UInt8)) (total : Nat)
  | writeSegs (slba : Nat) (segs : List (List UInt8)) (total : Nat)
  | writeZeroes (range : LbaRange)
  deriving DecidableEq, Repr

/-- The result of an operation, with what it left in the segments it was given. -/
abbrev MemOut : Type := Except BackendError Unit × List (List UInt8)

namespace MemoryBackend

def apply (m : MemoryBackend) : MemOp → Checked Empty (MemOut × MemoryBackend)
  | .readSegs slba segs total => do
    let out ← Core.Backend.readSegs m.blockShift m.read total slba segs
    return (out, m)
  | .writeSegs slba segs total => do
    let r ← Core.Backend.writeSegs m.blockShift write total slba segs m
    return ((r.1, segs), r.2)
  | .writeZeroes range => do
    let r ← m.writeZeroes range
    return ((r.1, []), r.2)

def history (m : MemoryBackend) : List MemOp → Checked Empty (List MemOut × MemoryBackend)
  | [] => .ok ([], m)
  | op :: ops => do
    let r ← m.apply op
    let rest ← r.2.history ops
    return (r.1 :: rest.1, rest.2)

end MemoryBackend

/-! ## One flat array

What a memory namespace is for: the same operations on one array. -/

namespace Flat

variable (blockShift : Nat)

def apply (flat : List UInt8) : MemOp → List (List UInt8) × List UInt8
  | .readSegs slba segs total =>
    let bytes := slice flat (slba * 2 ^ blockShift) (min total segs.flatten.length)
    ((Lib.writeSegs segs 0 bytes).1, flat)
  | .writeSegs slba segs total =>
    (segs, blit flat (slba * 2 ^ blockShift) (segs.flatten.take total))
  | .writeZeroes range =>
    ([], blit flat (range.slba * 2 ^ blockShift) (List.replicate (range.nlb * 2 ^ blockShift) 0))

def history : List UInt8 → List MemOp → List (List (List UInt8)) × List UInt8
  | flat, [] => ([], flat)
  | flat, op :: ops =>
    let r := apply blockShift flat op
    let rest := history r.2 ops
    (r.1 :: rest.1, rest.2)

end Flat

/-- In whole blocks, all but the last segment too, and inside a namespace of `nrBlocks` blocks. -/
def MemOp.InRange (blockShift nrBlocks : Nat) : MemOp → Prop
  | .readSegs slba segs total | .writeSegs slba segs total =>
    (∀ seg ∈ segs.dropLast, 2 ^ blockShift ∣ seg.length) ∧ 2 ^ blockShift ∣ total ∧
      slba + total / 2 ^ blockShift ≤ nrBlocks
  | .writeZeroes range => range.slba + range.nlb ≤ nrBlocks

end Ioutgt.Backend
