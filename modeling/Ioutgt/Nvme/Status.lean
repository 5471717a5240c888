import Mathlib.Data.Nat.Basic

/-!
# NVMe status codes

Combined `(SCT << 8) | SC` values; the completion entry shifts the whole value left by one.
-/

namespace Ioutgt.Nvme.Status

-- Generic command status (SCT 0).
def success : Nat := 0x0
def invalidOpcode : Nat := 0x1
def invalidField : Nat := 0x2
def dataXferError : Nat := 0x4
def internal : Nat := 0x6
def invalidNs : Nat := 0xB
def cmdSeqError : Nat := 0xC
def dataSglLenInvalid : Nat := 0xF
def sglInvalidType : Nat := 0x11
def lbaRange : Nat := 0x80
def capExceeded : Nat := 0x81

-- Command-specific and fabrics status.
def invalidLogPage : Nat := 0x109
def featureNotChangeable : Nat := 0x10E
def connectFormat : Nat := 0x180
def connectCtrlBusy : Nat := 0x181
def connectInvalidParam : Nat := 0x182
def connectInvalidHost : Nat := 0x184

def dnr : Nat := 0x4000

/-- Result DW0 of CONNECT_INVALID_PARAM: byte offset of the offending field in the Connect command
or data. -/
def connectInvalidParamResult (inData : Bool) (offset : Nat) : Nat :=
  (offset <<< 16) ||| inData.toNat

end Ioutgt.Nvme.Status
