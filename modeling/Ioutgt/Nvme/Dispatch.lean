import Ioutgt.Nvme.Controller
import Ioutgt.Nvme.Fabrics
import Ioutgt.Nvme.Status

/-!
# Per-connection context

The state of one queue connection, by role. A subsystem is held by its identity; its namespace
table is looked up where it is read, as the control plane may replace it. Times are milliseconds.
-/

namespace Ioutgt.Nvme

open Ioutgt.Core

def maxQueueEntries : Nat := 256

def aenCfgNsAttr : Nat := 1 <<< 8

/-! ## Keep-alive -/

def keepaliveTickMin : Nat := 250
def keepaliveTickMax : Nat := 5000

/-- Poll interval of the keep-alive machinery for a controller with this KATO: half the timeout,
clamped. -/
def keepaliveTick (katoMs : Nat) : Nat :=
  if katoMs = 0 then keepaliveTickMax
  else Nat.max keepaliveTickMin (Nat.min (katoMs / 2) keepaliveTickMax)

/-! ## Roles -/

structure AdminState where
  regs : RegisterState
  cntlid : Nat
  subsys : Option SubsystemId
  discovery : Bool
  katoMs : Nat
  lastHeard : Nat
  /-- The controller's shared liveness flag, set once Connect has a cntlid. -/
  traffic : Option Nat
  events : List Nat
  aec : Nat
  /-- Namespace inventory changed since the host last read the Changed-NS log page. -/
  nsChanged : Bool
  closing : Bool
  deriving DecidableEq, Repr

structure IoState (B : Type) where
  cntlid : Nat
  subsys : Option SubsystemId
  nsCache : NsCache B
  /-- The controller's shared liveness flag, when it runs a keep-alive timer. -/
  traffic : Option Nat
  katoMs : Nat

inductive Role (B : Type) where
  | admin (state : AdminState)
  | io (state : IoState B)

structure ConnCtx (B : Type) where
  qid : Nat
  sqsize : Nat
  tid : Int
  cpus : List UInt8
  port : PortConfig
  connectData : ConnectData
  peer : List UInt8
  role : Role B

def AdminState.new (now : Nat) : AdminState where
  regs := .new maxQueueEntries
  cntlid := 0
  subsys := none
  discovery := false
  katoMs := 0
  lastHeard := now
  traffic := none
  events := []
  aec := aenCfgNsAttr
  nsChanged := false
  closing := false

def IoState.new (B : Type) : IoState B where
  cntlid := 0
  subsys := none
  nsCache := {}
  traffic := none
  katoMs := 0

/-- Keep-alive verdict: how long the host has been quiet, when that is past KATO×2 and one tick of
grace. `flag` is what taking the traffic flag returns. -/
def AdminState.keepaliveExpired (a : AdminState) (flag : Bool) (now : Nat) :
    Option Nat × AdminState :=
  if a.katoMs = 0 then (none, a)
  -- the flag is consumed, and traffic counts as being heard from
  else if a.traffic.isSome && flag then (none, { a with lastHeard := now })
  else
    let silent := now - a.lastHeard
    (if silent > a.katoMs * 2 + keepaliveTick a.katoMs then some silent else none, a)

def nsAttrNotice : Nat := 0x00040002

def AdminState.fireNsChanged (a : AdminState) : AdminState :=
  let a := { a with nsChanged := true }
  if a.aec &&& aenCfgNsAttr = 0 then a
  else if a.events.contains nsAttrNotice then a
  else { a with events := a.events ++ [nsAttrNotice] }

structure Outcome where
  result : Nat
  rsvd : Nat
  status : Nat
  dataLen : Nat
  data : List UInt8
  deriving DecidableEq, Repr

def Outcome.ofStatus (result status : Nat) : Outcome :=
  { result, rsvd := 0, status, dataLen := 0, data := [] }

end Ioutgt.Nvme
