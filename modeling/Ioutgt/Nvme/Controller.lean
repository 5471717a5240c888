import Mathlib.Data.BitVec

/-!
# Controller registers

The CC/CSTS enable and shutdown machine of one fabrics controller.
-/

namespace Ioutgt.Nvme

/-! ## Register bits -/

/-- Controller Configuration (CC) bits. -/
def Cc.en : BitVec 32 := 1 <<< 0
def Cc.shnMask : BitVec 32 := 0b11 <<< 14

def Cc.enabled (cc : BitVec 32) : Bool := cc &&& Cc.en != 0
def Cc.shutdown (cc : BitVec 32) : Bool := cc &&& Cc.shnMask != 0

def Csts.rdy : BitVec 32 := 1 <<< 0
def Csts.shstComplete : BitVec 32 := 0b10 <<< 2
def Csts.shstMask : BitVec 32 := 0b11 <<< 2

structure RegisterState where
  cc : BitVec 32
  csts : BitVec 32
  cap : BitVec 64
  deriving DecidableEq, Repr

inductive CcEffect where
  | none
  | enabled
  | shutdown
  | disabled
  deriving DecidableEq, Repr

namespace RegisterState

/-- MQES = qsize-1, CQR set, timeout 15s in units of 500ms. -/
def new (maxQueueEntries : Nat) : RegisterState where
  cc := 0
  csts := 0
  cap := BitVec.ofNat 64 (maxQueueEntries - 1) ||| (1 <<< 16) ||| (30 <<< 24)

def writeCc (r : RegisterState) (value : BitVec 32) : CcEffect × RegisterState :=
  let wasEnabled := Cc.enabled r.cc
  let nowEnabled := Cc.enabled value
  let r := { r with cc := value }
  if Cc.shutdown value then (.shutdown, { r with csts := r.csts ||| Csts.shstComplete })
  else if !wasEnabled && nowEnabled then (.enabled, { r with csts := r.csts ||| Csts.rdy })
  else if wasEnabled && !nowEnabled then (.disabled, { r with csts := r.csts &&& ~~~Csts.rdy })
  else (.none, r)

def ready (r : RegisterState) : Bool := r.csts &&& Csts.rdy != 0

def shutdownComplete (r : RegisterState) : Bool := r.csts &&& Csts.shstMask == Csts.shstComplete

end RegisterState

end Ioutgt.Nvme
