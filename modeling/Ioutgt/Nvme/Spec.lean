import Ioutgt.Lib.Bytes

/-!
# NVMe base-spec command structures

The submission and completion queue entries as they lie on the wire. Integer fields hold the
number their little-endian bytes spell.
-/

namespace Ioutgt.Nvme

open Lib

/-! ## Opcodes, features and identifiers -/

namespace AdminOpcode
def getLogPage : Nat := 0x02
def identify : Nat := 0x06
def setFeatures : Nat := 0x09
def getFeatures : Nat := 0x0A
def asyncEvent : Nat := 0x0C
def keepAlive : Nat := 0x18
/-- All fabrics commands share this opcode; `fctype` selects. -/
def fabrics : Nat := 0x7F
end AdminOpcode

namespace IoOpcode
def flush : Nat := 0x00
def write : Nat := 0x01
def read : Nat := 0x02
def writeZeroes : Nat := 0x08
def dsm : Nat := 0x09
end IoOpcode

def Cns.namespace : Nat := 0x00
def Cns.controller : Nat := 0x01
def Cns.activeNsList : Nat := 0x02
def Cns.nsDescList : Nat := 0x03

namespace Feat
def volatileWc : Nat := 0x06
def numQueues : Nat := 0x07
def asyncEventConfig : Nat := 0x0B
def kato : Nat := 0x0F
def hostId : Nat := 0x81
end Feat

namespace LogPage
def error : Nat := 0x01
def smart : Nat := 0x02
def fwSlot : Nat := 0x03
def changedNs : Nat := 0x04
def discovery : Nat := 0x70
end LogPage

/-! ## Queue entries -/

structure SglDescriptor where
  addr : Nat
  length : Nat
  rsvd : List UInt8
  sglType : Nat
  deriving DecidableEq, Repr

/-- Data stays host-resident, moved by R2T/H2CData or C2HData. -/
def SglDescriptor.typeTransportDataBlock : Nat := 0x5A

structure Sqe where
  opcode : Nat
  flags : Nat
  cid : Nat
  nsid : Nat
  cdw2 : Nat
  cdw3 : Nat
  mptr : Nat
  dptr : SglDescriptor
  cdw10 : Nat
  cdw11 : Nat
  cdw12 : Nat
  cdw13 : Nat
  cdw14 : Nat
  cdw15 : Nat
  deriving DecidableEq, Repr

def SglDescriptor.readFromBytes (bs : List UInt8) : SglDescriptor where
  addr := leAt bs 0 8
  length := leAt bs 8 4
  rsvd := slice bs 12 3
  sglType := byteAt bs 15

def SglDescriptor.asBytes (d : SglDescriptor) : List UInt8 :=
  toLe 8 d.addr ++ toLe 4 d.length ++ d.rsvd ++ toLe 1 d.sglType

def Sqe.readFromBytes (bs : List UInt8) : Sqe where
  opcode := byteAt bs 0
  flags := byteAt bs 1
  cid := leAt bs 2 2
  nsid := leAt bs 4 4
  cdw2 := leAt bs 8 4
  cdw3 := leAt bs 12 4
  mptr := leAt bs 16 8
  dptr := SglDescriptor.readFromBytes (slice bs 24 16)
  cdw10 := leAt bs 40 4
  cdw11 := leAt bs 44 4
  cdw12 := leAt bs 48 4
  cdw13 := leAt bs 52 4
  cdw14 := leAt bs 56 4
  cdw15 := leAt bs 60 4

def Sqe.asBytes (s : Sqe) : List UInt8 :=
  toLe 1 s.opcode ++ toLe 1 s.flags ++ toLe 2 s.cid ++ toLe 4 s.nsid ++ toLe 4 s.cdw2 ++
    toLe 4 s.cdw3 ++ toLe 8 s.mptr ++ s.dptr.asBytes ++ toLe 4 s.cdw10 ++ toLe 4 s.cdw11 ++
    toLe 4 s.cdw12 ++ toLe 4 s.cdw13 ++ toLe 4 s.cdw14 ++ toLe 4 s.cdw15

def Sqe.zeroed : Sqe := Sqe.readFromBytes (List.replicate 64 0)

structure Cqe where
  result : Nat
  rsvd : Nat
  sqHead : Nat
  sqId : Nat
  cid : Nat
  status : Nat
  deriving DecidableEq, Repr

def Cqe.readFromBytes (bs : List UInt8) : Cqe where
  result := leAt bs 0 4
  rsvd := leAt bs 4 4
  sqHead := leAt bs 8 2
  sqId := leAt bs 10 2
  cid := leAt bs 12 2
  status := leAt bs 14 2

def Cqe.asBytes (c : Cqe) : List UInt8 :=
  toLe 4 c.result ++ toLe 4 c.rsvd ++ toLe 2 c.sqHead ++ toLe 2 c.sqId ++ toLe 2 c.cid ++
    toLe 2 c.status

/-- Build a completion; `status` is the combined (SCT << 8 | SC) code, shifted into wire
position here. -/
def Cqe.new (result sqHead sqId cid status : Nat) : Cqe :=
  { result, rsvd := 0, sqHead, sqId, cid, status := (status <<< 1) % 2 ^ 16 }

theorem Cqe.asBytes_length (c : Cqe) : c.asBytes.length = 16 := by simp [Cqe.asBytes]

end Ioutgt.Nvme
