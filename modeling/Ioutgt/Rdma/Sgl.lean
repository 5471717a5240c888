import Ioutgt.Core.Backend
import Ioutgt.Lib.Scatter
import Ioutgt.Nvme.Dispatch

/-!
# SGL descriptors and data work requests on RDMA

The in-capsule and keyed data-block descriptors carried in a command's `dptr`, and the one-sided
work requests that move a slot's data.
-/

namespace Ioutgt.Rdma

open Lib Ioutgt.Core Ioutgt.Nvme

/-! ## Descriptors -/

def sglTypeOffset : Nat := 24 + 15

def keyedSglTypeHi : Nat := 0x4

def inlineSglType : Nat := 0x01

def parseInlineSgl (sqe : Sqe) : Nat × Nat :=
  let b := sqe.asBytes
  (leAt b 24 8, leAt b 32 4)

/-- A host region from a command's keyed SGL data block descriptor. -/
structure KeyedSgl where
  addr : Nat
  len : Nat
  rkey : Nat
  deriving DecidableEq, Repr

def parseKeyedSgl (sqe : Sqe) : KeyedSgl :=
  let d := slice sqe.asBytes 24 16
  { addr := leAt d 0 8
    -- a 24-bit little-endian field
    len := byteAt d 8 ||| (byteAt d 9 <<< 8) ||| (byteAt d 10 <<< 16)
    rkey := leAt d 11 4 }

def hostDataIn {B : Type} (role : Role B) (opcode : Nat) : Bool :=
  match role with
  | .admin _ => false
  | .io _ => opcode == IoOpcode.write || opcode == IoOpcode.dsm

/-- The staged transfer length: the keyed length clamped to MDTS. -/
def stagedLen (sqe : Sqe) : Nat := min (parseKeyedSgl sqe).len mdtsBytes

/-! ## Work requests -/

/-- One scatter/gather entry per contiguous run of the first `len` bytes of a slot's buffer, by its
contents. -/
def fillSges (segs : List (List UInt8)) (len : Nat) : List (List UInt8) := takeSegs segs len

structure RdmaWrite where
  remote : Nat
  data : List UInt8
  deriving DecidableEq, Repr

def postSgeRuns : Nat → List (List UInt8) → List RdmaWrite
  | _, [] => []
  | remote, sge :: sges =>
    { remote, data := sge } :: postSgeRuns ((remote + sge.length) % 2 ^ 64) sges

def responseWrites (cmd : Sqe) (segs : List (List UInt8)) (dataLen : Nat) : List RdmaWrite :=
  if dataLen > 0 then
    let dst := parseKeyedSgl cmd
    postSgeRuns dst.addr (fillSges segs dataLen)
  else []

end Ioutgt.Rdma
