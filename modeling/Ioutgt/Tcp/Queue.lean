import Ioutgt.Core.SlotQ
import Ioutgt.Nvme.Spec
import Ioutgt.Nvme.Status

/-!
# The NVMe/TCP per-connection rendezvous

The slots and the SQ head of the queue with this transport's ordered send list. The send list is
kept as everything ever pushed, oldest first, with the number of items the send loop has popped.
-/

namespace Ioutgt.Tcp

open Lib Ioutgt.Core Ioutgt.Nvme

structure Completion where
  tag : Nat
  cqe : Cqe
  dataLen : Nat
  deriving DecidableEq, Repr

inductive SendWork where
  | response (c : Completion)
  | r2t (tag cid offset length : Nat)
  deriving DecidableEq, Repr

structure QueueCfg where
  qid : Nat
  sqsize : Nat
  sqhdDisabled : Bool
  sqsize_pos : 0 < sqsize
  sqsize_lt : sqsize < 2 ^ 16

structure NvmeTcpQueue where
  cfg : QueueCfg
  sqhd : Nat
  slots : SlotArray Sqe
  /-- Everything ever pushed on the send list. -/
  send : List SendWork
  /-- How much of `send` the send loop has popped. -/
  taken : Nat
  traffic : Bool

namespace NvmeTcpQueue

variable {ε : Type}

def new (cfg : QueueCfg) : NvmeTcpQueue where
  cfg := cfg
  sqhd := 0
  slots := SlotArray.new cfg.sqsize Sqe.zeroed
  send := []
  taken := 0
  traffic := false

def advanceSqhd (q : NvmeTcpQueue) : Checked ε (Nat × NvmeTcpQueue) :=
  if q.cfg.sqhdDisabled then return (0, q)
  else do
    let next ← Checked.add 16 q.sqhd 1
    let next := next % q.cfg.sqsize
    return (next, { q with sqhd := next })

def modifySlot (q : NvmeTcpQueue) (tag : Nat) (f : Slot Sqe → Slot Sqe) :
    Checked ε NvmeTcpQueue := do
  let s ← q.slots.slot tag
  return { q with slots := q.slots.put tag (f s) }

/-- Park the command while its payload is still arriving. -/
def stashCmd (q : NvmeTcpQueue) (tag : Nat) (cmd : Sqe) : Checked ε NvmeTcpQueue := do
  let s ← q.slots.slot tag
  Checked.require (s.state = .receiving) .assertFailed
  q.modifySlot tag ({ · with cmd })

def push (q : NvmeTcpQueue) (w : SendWork) : NvmeTcpQueue := { q with send := q.send ++ [w] }

def submit (q : NvmeTcpQueue) (tag : Nat) (cmd : Sqe) : Checked ε NvmeTcpQueue := do
  let slots ← q.slots.submit tag cmd
  return { q with slots, traffic := true }

def complete (q : NvmeTcpQueue) (tag : Nat) (cqe : Cqe) (dataLen : Nat) :
    Checked ε NvmeTcpQueue := do
  let slots ← q.slots.beginRespond tag
  return { q with slots }.push (.response { tag, cqe, dataLen })

/-- The end of a slot task's round: the completion entry of the command dispatch has executed, and
`complete`. -/
def finish (q : NvmeTcpQueue) (tag result rsvd status dataLen : Nat) :
    Checked ε NvmeTcpQueue := do
  let s ← q.slots.slot tag
  let (sqhd, q) ← q.advanceSqhd
  let cqe := { Cqe.new result sqhd q.cfg.qid s.cmd.cid status with rsvd }
  q.complete tag cqe dataLen

def completeReceiving (q : NvmeTcpQueue) (tag : Nat) (cqe : Cqe) : Checked ε NvmeTcpQueue := do
  let slots ← q.slots.respondReceiving tag
  return { q with slots }.push (.response { tag, cqe, dataLen := 0 })

def solicit (q : NvmeTcpQueue) (tag cid offset length : Nat) : Checked ε NvmeTcpQueue := do
  let s ← q.slots.slot tag
  Checked.require (s.state = .receiving) .assertFailed
  return q.push (.r2t tag cid offset length)

end NvmeTcpQueue

end Ioutgt.Tcp
