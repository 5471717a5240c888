import Ioutgt.Core.Backend
import Ioutgt.Lib.Prog

/-!
# Discard and write-zeroes on the stores

The two operations of each backend that change a store without a transfer, down to the system calls
of a file or block device and the chunks of a memory store.
-/

namespace Ioutgt.Backend

open Lib Ioutgt.Core

/-! ## What they do to a store -/

/-- Answer of a system call through the ring: it could not be submitted, failed, or is done. An
error may carry no errno. -/
inductive Sys (α : Type) where
  | refused (errno : Option Nat)
  | failed (errno : Option Nat)
  | done (a : α)

inductive StoreOp where
  | fallocate (mode off len : Nat)
  | blockDiscard (off len : Nat)
  | writeAt (off len : Nat)
  /-- Zero `take` bytes at `inChunk` of a memory store's chunk, if it has been allocated. -/
  | zeroChunk (index inChunk take : Nat)
  deriving DecidableEq, Repr

/-- A write reports at most what it was given. -/
abbrev StoreOp.Res : StoreOp → Type
  | .writeAt _ len => Sys { n : Nat // n ≤ len }
  | .zeroChunk .. => Unit
  | _ => Sys Unit

abbrev StoreProg : Type → Type := Prog StoreOp StoreOp.Res

/-- log2 of a memory store's chunk size. -/
def chunkShift : Nat := 21
def chunkSize : Nat := 1 <<< chunkShift

/-- The bytes an operation touches: where they start and how many there are. -/
def StoreOp.span : StoreOp → Nat × Nat
  | .fallocate _ off len => (off, len)
  | .blockDiscard off len => (off, len)
  | .writeAt off len => (off, len)
  | .zeroChunk index inChunk take => (index * chunkSize + inChunk, take)

/-! ## Files and block devices -/

inductive Kind where
  | regular
  | block
  deriving DecidableEq, Repr

def enospc : Nat := 28
def einval : Nat := 22
def eopnotsupp : Nat := 95
def ebusy : Nat := 16
def eio : Nat := 5

def fallocFlKeepSize : Nat := 0x01
def fallocFlPunchHole : Nat := 0x02
def fallocFlZeroRange : Nat := 0x10

def mapErrno (err : Nat) : BackendError :=
  if err = enospc then .noSpace
  else if err = eopnotsupp ∨ err = einval then .unsupported
  else .io err

def rawOsError (errno : Option Nat) : Nat := errno.getD eio

/-- Deallocate is a hint: these count as honoured by doing nothing. -/
def unmapHintDeclined (errno : Option Nat) : Bool :=
  errno = some eopnotsupp ∨ errno = some ebusy

/-- Only a mode the store lacks moves on to the next. -/
def fallocateModeUnsupported (errno : Option Nat) : Bool := errno = some eopnotsupp

structure FileStore where
  kind : Kind
  geometry : Geometry

namespace FileStore

def offset (f : FileStore) (slba : Nat) : Checked Empty Nat :=
  Checked.shl 64 slba f.geometry.blockShift

def unmap (f : FileStore) (off len : Nat) : StoreProg (Sys Unit) :=
  match f.kind with
  | .regular => Prog.ask (StoreOp.fallocate (fallocFlPunchHole ||| fallocFlKeepSize) off len)
  | .block => Prog.ask (StoreOp.blockDiscard off len)

def discard (f : FileStore) : List LbaRange → StoreProg (Except BackendError Unit)
  | [] => return .ok ()
  | range :: rest => do
    match checkRange f.geometry.nrBlocks range.slba range.nlb with
    | .error _ => return .error .outOfRange
    | .ok () =>
      let off ← Prog.check (f.offset range.slba)
      let len ← Prog.check (Checked.shl 64 range.nlb f.geometry.blockShift)
      match ← f.unmap off len with
      | .refused e => return .error (.io (rawOsError e))
      | .failed e =>
        if unmapHintDeclined e then f.discard rest else return .error (mapErrno (rawOsError e))
      | .done () => f.discard rest

/-- The `fallocate` modes that zero a range, in the order they are tried. -/
def zeroModes (f : FileStore) : List Nat :=
  match f.kind with
  | .block => [fallocFlZeroRange ||| fallocFlKeepSize]
  | .regular => [fallocFlZeroRange, fallocFlPunchHole ||| fallocFlKeepSize]

def zeroChunkLen : Nat := 64 * 1024

def fallocate (mode off len : Nat) : StoreProg (Sys Unit) :=
  Prog.ask (StoreOp.fallocate mode off len)

def writeAt (off len : Nat) : StoreProg (Sys { n : Nat // n ≤ len }) :=
  Prog.ask (StoreOp.writeAt off len)

/-- Write zero chunks over what remains; each round writes at least a byte. -/
def writeZeroChunks : Nat → Nat → Nat → StoreProg (Except BackendError Unit)
  | _, 0, _ => return .ok ()
  | 0, _ + 1, _ => .abort .outOfFuel
  | fuel + 1, remaining + 1, off => do
    match ← writeAt off (Nat.min (remaining + 1) zeroChunkLen) with
    | .refused e => return .error (.io (rawOsError e))
    | .failed e => return .error (mapErrno (rawOsError e))
    | .done n =>
      if n.1 = 0 then return .error (.io eio)
      else
        let remaining ← Prog.check (Checked.sub (remaining + 1) n.1)
        let off ← Prog.check (Checked.add 64 off n.1)
        writeZeroChunks fuel remaining off

def zeroRange (off len : Nat) : List Nat → StoreProg (Except BackendError Unit)
  | [] => writeZeroChunks len len off
  | mode :: rest => do
    match ← fallocate mode off len with
    | .refused e => return .error (.io (rawOsError e))
    | .failed e =>
      if fallocateModeUnsupported e then zeroRange off len rest
      else return .error (mapErrno (rawOsError e))
    | .done () => return .ok ()

def writeZeroes (f : FileStore) (range : LbaRange) : StoreProg (Except BackendError Unit) := do
  match checkRange f.geometry.nrBlocks range.slba range.nlb with
  | .error e => return .error e
  | .ok () =>
    let len ← Prog.check (Checked.shl 64 range.nlb f.geometry.blockShift)
    let off ← Prog.check (f.offset range.slba)
    zeroRange off len f.zeroModes

end FileStore

/-! ## Memory -/

namespace Memory

def nrChunks (g : Geometry) : Nat := (g.nrBlocks * 2 ^ g.blockShift + chunkSize - 1) / chunkSize

def forEachChunk (g : Geometry) : Nat → Nat → Nat → StoreProg (Except BackendError Unit)
  | _, 0, _ => return .ok ()
  | 0, _ + 1, _ => .abort .outOfFuel
  | fuel + 1, remaining + 1, pos => do
    let index := pos >>> chunkShift
    let inChunk := pos &&& (chunkSize - 1)
    let take := Nat.min (remaining + 1) (chunkSize - inChunk)
    Prog.check (Checked.require (index < nrChunks g) .indexOutOfBounds)
    Prog.check (Checked.require (inChunk + take ≤ chunkSize) .indexOutOfBounds)
    let _ ← Prog.ask (StoreOp.zeroChunk index inChunk take)
    let pos ← Prog.check (Checked.add 64 pos take)
    let remaining ← Prog.check (Checked.sub (remaining + 1) take)
    forEachChunk g fuel remaining pos

def writeZeroes (g : Geometry) (range : LbaRange) : StoreProg (Except BackendError Unit) := do
  match checkRange g.nrBlocks range.slba range.nlb with
  | .error e => return .error e
  | .ok () =>
    let offset ← Prog.check (Checked.shl 64 range.slba g.blockShift)
    let len ← Prog.check (Checked.shl 64 range.nlb g.blockShift)
    forEachChunk g len len offset

end Memory

/-! ## Any backend -/

inductive AnyBackend where
  | null (geometry : Geometry)
  | memory (geometry : Geometry)
  | file (store : FileStore)

namespace AnyBackend

def geometry : AnyBackend → Geometry
  | null g => g
  | memory g => g
  | file f => f.geometry

instance : Backend AnyBackend where
  blockShift b := b.geometry.blockShift
  nrBlocks b := b.geometry.nrBlocks
  topology b := b.geometry.topology
  blockShift_le b := b.geometry.blockShift_le
  bytes_lt b := b.geometry.bytes_lt

def discard : AnyBackend → List LbaRange → StoreProg (Except BackendError Unit)
  | null _, _ => return .ok ()
  | memory _, _ => return .ok ()
  | file f, ranges => f.discard ranges

def writeZeroes : AnyBackend → LbaRange → StoreProg (Except BackendError Unit)
  | null g, range => return checkRange g.nrBlocks range.slba range.nlb
  | memory g, range => Memory.writeZeroes g range
  | file f, range => f.writeZeroes range

end AnyBackend

end Ioutgt.Backend
