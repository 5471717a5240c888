import Ioutgt.Lib.Effect
import Ioutgt.Core.SlotQ
import Ioutgt.Backend.Store

/-!
# Vectored IO of the file backend

`rwv` and what calls it, down to the calls on the ring, and what such a call may do to the file and
to the segments. An iovec is a piece of a segment; the slice `iovs[idx..]` is the list of the pieces
that are left.
-/

namespace Ioutgt.Backend

open Lib Ioutgt.Core

def iovsLen (iovs : List Piece) : Nat := (iovs.map (·.len)).sum

inductive VecOp where
  /-- A vectored read or write at a file offset; `fixed` is the registered buffer of the fixed
  variants. -/
  | rw (write : Bool) (iovs : List Piece) (off : Nat) (fixed : Option Nat) (dontcache : Bool)

/-- How a call ended, and whether a command on another queue has dropped the uncached-IO flag in
the meantime. -/
structure VecAnswer (len : Nat) where
  /-- A transfer reports at most what it was given. -/
  res : Sys { n : Nat // n ≤ len }
  dropped : Bool

abbrev VecOp.Res : VecOp → Type
  | .rw _ iovs .. => VecAnswer (iovsLen iovs)

abbrev VecProg : Type → Type := Prog VecOp VecOp.Res

/-! ## The iovec array -/

def fillIovecs : Nat → Nat → List (List UInt8) → List Piece
  | _, _, [] => []
  | i, remaining, seg :: segs =>
    if remaining = 0 then []
    else
      let take := min remaining seg.length
      ⟨i, 0, take⟩ :: fillIovecs (i + 1) (remaining - take) segs

def advanceIovecs {ε : Type} : List Piece → Nat → Checked ε (List Piece)
  | iovs, 0 => .ok iovs
  | [], _ + 1 => Checked.abort .indexOutOfBounds
  | v :: iovs, n + 1 =>
    if v.len ≤ n + 1 then advanceIovecs iovs (n + 1 - v.len)
    else .ok ({ v with off := v.off + (n + 1), len := v.len - (n + 1) } :: iovs)

/-! ## The loop -/

namespace FileStore

section Rwv

variable (direct write : Bool) (base total : Nat) (fixed : Option Nat)

/-- Transfer what is left, from `done` on; `dontcache` is the backend's flag, which is only ever
cleared. Each round transfers at least a byte or drops the flag. -/
def rwvLoop : Nat → Bool → Nat → List Piece → VecProg (Except BackendError Unit × Bool)
  | fuel, dontcache, done, iovs =>
    if total ≤ done then return (.ok (), dontcache)
    else match fuel with
      | 0 => .abort .outOfFuel
      | fuel + 1 => do
        let off ← Prog.check (Checked.add 64 base done)
        let useDc := !direct && dontcache
        let ans ← Prog.ask (VecOp.rw write iovs off fixed useDc)
        let dontcache := dontcache && !ans.dropped
        match ans.res with
        | .refused e => return (.error (.io (rawOsError e)), dontcache)
        | .done n =>
          if n.1 = 0 then return (.error (.io eio), dontcache)
          else
            let iovs ← Prog.check (advanceIovecs iovs n.1)
            rwvLoop fuel dontcache (done + n.1) iovs
        | .failed e =>
          -- the flag is not supported: drop it for good and retry
          if useDc ∧ (rawOsError e = eopnotsupp ∨ rawOsError e = einval) then
            rwvLoop fuel false done iovs
          else return (.error (mapErrno (rawOsError e)), dontcache)

end Rwv

variable (f : FileStore)

def rwv (direct dontcache write : Bool) (slba : Nat) (iovs : List Piece) (total : Nat)
    (fixed : Option Nat) : VecProg (Except BackendError Unit × Bool) :=
  if total = 0 then return (.ok (), dontcache)
  else
    match checkRange f.geometry.nrBlocks slba (total >>> f.geometry.blockShift) with
    | .error e => return (.error e, dontcache)
    | .ok () => do
      let base ← Prog.check (f.offset slba)
      rwvLoop direct write base total fixed (total + 1) dontcache 0 iovs

def rwSegs (direct dontcache write : Bool) (slba : Nat) (segs : List (List UInt8)) (total : Nat)
    (fixed : Option Nat) : VecProg (Except BackendError Unit × Bool) := do
  let iovs := fillIovecs 0 total segs
  Prog.check (Checked.require (iovs.length ≤ SlotData.maxSegs) .indexOutOfBounds)
  f.rwv direct dontcache write slba iovs total fixed

end FileStore

/-! ## What the calls do -/

/-- The file, the segments, and what the calls were answered so far. -/
structure IoWorld where
  file : Nat → UInt8
  segs : List (List UInt8)
  answers : List (Sys Nat)

def Sys.count {len : Nat} : Sys { n : Nat // n ≤ len } → Sys Nat
  | .refused e => .refused e
  | .failed e => .failed e
  | .done n => .done n.1

/-- A write changes the file, and a read the pieces, in the range of the call and nowhere else.
Whatever part of it a call reports as done is as it should be; the rest of the range may be
anything, also after an error. -/
def VecOp.act : (op : VecOp) → op.Res → IoWorld → IoWorld → Prop
  | .rw write iovs off _ _, ans, s, s' => ∃ w : List UInt8, w.length = iovsLen iovs ∧
    match write with
    | true => s' = ⟨patch s.file off w, s.segs, s.answers ++ [ans.res.count]⟩ ∧
      ∀ n, ans.res.count = .done n → w.take n = (gather s.segs iovs).take n
    | false => s' = ⟨s.file, scatter s.segs iovs w, s.answers ++ [ans.res.count]⟩ ∧
      ∀ n, ans.res.count = .done n → w.take n = (List.range n).map fun i => s.file (off + i)

/-- The same for the calls that zero a range of a file or block device: what `fallocate` reports as
done has been zeroed. -/
def StoreOp.act : (op : StoreOp) → op.Res → (Nat → UInt8) → (Nat → UInt8) → Prop
  | .fallocate _ off len, ans, s, s' => ∃ w : List UInt8, w.length = len ∧ s' = patch s off w ∧
    (ans = .done () → w = List.replicate len 0)
  | .blockDiscard off len, _, s, s' => ∃ w : List UInt8, w.length = len ∧ s' = patch s off w
  | .writeAt off len, ans, s, s' => ∃ w : List UInt8, w.length = len ∧ s' = patch s off w ∧
    ∀ n, ans.count = .done n → w.take n = List.replicate n 0
  | .zeroChunk .., _, s, s' => s' = s

end Ioutgt.Backend
