import Mathlib.Data.List.Sort
import Ioutgt.Lib.Checked
import Ioutgt.Core.Subsystem

/-!
# The storage backend abstraction

What the dispatcher knows of a backend without calling it, and what a namespace is bound to.
-/

namespace Ioutgt.Core

def mdtsBytes : Nat := 128 * 1024

structure Topology where
  physicalBlock : Nat := 0
  ioMin : Nat := 0
  ioOpt : Nat := 0
  discardGranularity : Nat := 0
  deriving DecidableEq, Repr

class Backend (B : Type) where
  blockShift : B → Nat
  nrBlocks : B → Nat
  topology : B → Topology
  /-- Block sizes are those of a 32-bit alignment. -/
  blockShift_le (b : B) : blockShift b ≤ 31
  /-- The capacity was computed from a size in bytes. -/
  bytes_lt (b : B) : nrBlocks b * 2 ^ blockShift b < 2 ^ 64

structure Geometry where
  blockShift : Nat
  nrBlocks : Nat
  topology : Topology := {}
  blockShift_le : blockShift ≤ 31
  bytes_lt : nrBlocks * 2 ^ blockShift < 2 ^ 64

instance : Backend Geometry where
  blockShift := Geometry.blockShift
  nrBlocks := Geometry.nrBlocks
  topology := Geometry.topology
  blockShift_le := Geometry.blockShift_le
  bytes_lt := Geometry.bytes_lt

def Geometry.ofSize (sizeBytes blockShift : Nat) (topology : Topology) (hs : blockShift ≤ 31)
    (hb : sizeBytes < 2 ^ 64) : Geometry where
  blockShift := blockShift
  nrBlocks := sizeBytes >>> blockShift
  topology := topology
  blockShift_le := hs
  bytes_lt := by
    rw [Nat.shiftRight_eq_div_pow]
    exact Nat.lt_of_le_of_lt (Nat.div_mul_le_self ..) hb

structure LbaRange where
  slba : Nat
  nlb : Nat
  deriving DecidableEq, Repr

inductive BackendError where
  | outOfRange
  | noSpace
  | unsupported
  | io (errno : Int)
  deriving DecidableEq, Repr

/-- Bounds-check an LBA range against a device of `nrBlocks` blocks: the sum must fit 64 bits and
not pass the end. -/
def checkRange (nrBlocks slba nlb : Nat) : Except BackendError Unit :=
  if slba + nlb < 2 ^ 64 ∧ slba + nlb ≤ nrBlocks then .ok () else .error .outOfRange

/-! ## Scattered IO

The defaults of `read_segs` and `write_segs`: one `read` or `write` a segment. A call gives its
result back together with what it left of the buffer, or of the store. -/

namespace Backend

open Lib

variable (blockShift : Nat)

def readSegs (read : Nat → List UInt8 → Checked Empty (Except BackendError Unit × List UInt8)) :
    Nat → Nat → List (List UInt8) → Checked Empty (Except BackendError Unit × List (List UInt8))
  | _, _, [] => .ok (.ok (), [])
  | remaining, cur, seg :: segs =>
    if remaining = 0 then .ok (.ok (), seg :: segs)
    else do
      let take := min remaining seg.length
      let r ← read cur (seg.take take)
      let seg := r.2 ++ seg.drop take
      match r.1 with
      | .error e => return (.error e, seg :: segs)
      | .ok () =>
        let cur ← Checked.add 64 cur (take >>> blockShift)
        let remaining ← Checked.sub remaining take
        let rest ← readSegs read remaining cur segs
        return (rest.1, seg :: rest.2)

def writeSegs {M : Type}
    (write : M → Nat → List UInt8 → Checked Empty (Except BackendError Unit × M)) :
    Nat → Nat → List (List UInt8) → M → Checked Empty (Except BackendError Unit × M)
  | _, _, [], m => .ok (.ok (), m)
  | remaining, cur, seg :: segs, m =>
    if remaining = 0 then .ok (.ok (), m)
    else do
      let take := min remaining seg.length
      let r ← write m cur (seg.take take)
      match r.1 with
      | .error e => return (.error e, r.2)
      | .ok () =>
        let cur ← Checked.add 64 cur (take >>> blockShift)
        let remaining ← Checked.sub remaining take
        writeSegs write remaining cur segs r.2

end Backend

structure Volume (B : Type) where
  backend : B
  uuid : List UInt8

namespace NsMap

variable {B : Type}

def keys (t : NsMap B) : List Nat := (t.map (·.nsid)).insertionSort (· ≤ ·)

end NsMap

def Subsystem.maxNsid {B : Type} (s : Subsystem B) : Nat := s.namespaces.keys.getLastD 0

end Ioutgt.Core
