import Ioutgt.Nvme.Task
import Ioutgt.Target.Queues

/-!
# A queue's completions in send order

The receive path, one task per slot and the send path of a queue, of either transport. A poll of a
slot task runs it up to the next call it awaits; other tasks run between polls. The send path takes
completions off the send list in batches. On RDMA the first command is run by the queue itself, before
the slot tasks are spawned, and its completion is posted without passing the send list.
-/

namespace Ioutgt.Target

open Lib Ioutgt.Core Ioutgt.Nvme

structure QueueCore where
  slots : SlotArray Sqe
  sqsize : Nat
  qid : Nat
  sqhd : Nat
  sqhdDisabled : Bool

namespace QueueCore

def new (qid sqsize : Nat) (sqhdDisabled : Bool) : QueueCore where
  slots := .new sqsize Sqe.zeroed
  sqsize := sqsize
  qid := qid
  sqhd := 0
  sqhdDisabled := sqhdDisabled

def advanceSqhd {ε : Type} (q : QueueCore) : Checked ε (Nat × QueueCore) :=
  if q.sqhdDisabled then return (0, q)
  else do
    let next ← Checked.add 16 q.sqhd 1
    -- a remainder by zero panics
    Checked.require (q.sqsize ≠ 0) .arithOverflow
    return (next % q.sqsize, { q with sqhd := next % q.sqsize })

end QueueCore

structure QueuedCompletion where
  tag : Nat
  cqe : Cqe
  dataLen : Nat
  deriving DecidableEq, Repr

structure SendOrder (B : Type) where
  core : QueueCore
  ctx : ConnCtx (Volume B)
  booted : Bool
  tasks : Nat → Option (TaskProg B Completed)
  list : List QueuedCompletion
  batch : List QueuedCompletion
  sent : List QueuedCompletion

inductive OrderAction (B : Type) where
  /-- The first command of an RDMA queue. -/
  | boot (sqe : Sqe) (tables : Admin.Tables B) (registry : Registry) (now : Nat) (slot : SlotView)
  | claim
  | submit (tag : Nat) (sqe : Sqe)
  /-- A command is failed before it is dispatched: a data digest mismatch on TCP, a descriptor that
  cannot be served on RDMA. -/
  | fail (tag cid status : Nat)
  | dispatch (tag : Nat) (tables : Admin.Tables B) (registry : Registry) (now : Nat)
    (slot : SlotView)
  | resume (tag : Nat) (answer : (op : IoOp B) → IoOp.Res op)
  | poll (tag : Nat)
  | nsChanged
  | close
  | take
  | post
  | release (tag : Nat)

namespace SendOrder

variable {B : Type}

/-- A TCP queue runs its first command through the slot tasks like any other. -/
def start (transport : TransportType) (port : PortConfig) (conn : QueueConn) (sqhdDisabled : Bool)
    (now : Nat) : SendOrder B where
  core := .new conn.qid conn.sqsize sqhdDisabled
  ctx := conn.ctx port now
  booted := transport == .tcp
  tasks := fun _ => none
  list := []
  batch := []
  sent := []

def order (q : SendOrder B) : List QueuedCompletion := q.sent ++ q.batch ++ q.list

def push (q : SendOrder B) (tag : Nat) (done : Completed) : SendOrder B :=
  if q.booted then { q with list := q.list ++ [⟨tag, done.cqe, done.dataLen⟩] }
  else { q with sent := q.sent ++ [⟨tag, done.cqe, done.dataLen⟩], booted := true }

def complete (q : SendOrder B) (tag : Nat) (done : Completed) : Checked Empty (SendOrder B) := do
  let slots ← q.core.slots.beginRespond tag
  let q := { q with core := { q.core with slots }, tasks := Function.update q.tasks tag none }
  return q.push tag done

def drive (tag : Nat) : TaskProg B Completed → SendOrder B → Checked Empty (SendOrder B)
  | .ret done, q => q.complete tag done
  | .abort p, _ => .abort p
  | .call .advanceSqhd k, q => do
    let (head, core) ← q.core.advanceSqhd
    drive tag (k head) { q with core }
  | .call (.io op) k, q =>
    return { q with tasks := Function.update q.tasks tag (some (.call (.io op) k)) }
  | .call .event k, q =>
    return { q with tasks := Function.update q.tasks tag (some (.call .event k)) }

def dispatch [Backend B] (q : SendOrder B) (tag : Nat) (tables : Admin.Tables B)
    (registry : Registry) (now : Nat) (slot : SlotView) :
    Checked Empty (Option (SendOrder B)) := do
  match ← q.core.slots.awaitCommand tag with
  | none => return none
  | some (sqe, slots) =>
    let (handler, ctx, _) ← Task.execute q.ctx tables registry now slot sqe
    return some (← drive tag handler { q with core := { q.core with slots }, ctx })

def pollEvent (q : SendOrder B) (tag : Nat) (k : Nat → TaskProg B Completed) :
    Checked Empty (SendOrder B) :=
  match q.ctx.role with
  | .admin admin =>
    match Admin.asyncEvent admin with
    | (some out, admin) => drive tag (k out.result) { q with ctx := { q.ctx with role := .admin admin } }
    | (none, admin) => return { q with ctx := { q.ctx with role := .admin admin } }
  -- only an admin queue has event requests
  | .io _ => .abort .unreachable

def onAdmin (q : SendOrder B) (f : AdminState → AdminState) : SendOrder B :=
  match q.ctx.role with
  | .admin admin => { q with ctx := { q.ctx with role := .admin (f admin) } }
  | .io _ => q

def failReceiving (q : SendOrder B) (tag cid status : Nat) : Checked Empty (SendOrder B) := do
  let (head, core) ← q.core.advanceSqhd
  let slots ← core.slots.respondReceiving tag
  return { q with core := { core with slots } }.push tag
    { cqe := Cqe.new 0 head core.qid cid status, dataLen := 0 }

def bootSlots (q : SendOrder B) (sqe : Sqe) : Checked Empty (Option (Nat × SendOrder B)) := do
  match ← q.core.slots.claimTag with
  | none => return none
  | some (tag, slots) =>
    let slots ← slots.submit tag sqe
    return some (tag, { q with core := { q.core with slots } })

def step [Backend B] (q : SendOrder B) : OrderAction B → Option (SendOrder B)
  | .boot sqe tables registry now slot =>
    if q.booted then none
    else do
      let (tag, q) ← (q.bootSlots sqe).toOption.join
      (q.dispatch tag tables registry now slot).toOption.join
  | .claim => do
    guard q.booted
    let (_, slots) ← (q.core.slots.claimTag : Checked Empty _).toOption.join
    return { q with core := { q.core with slots } }
  | .submit tag sqe => do
    guard q.booted
    let slots ← (q.core.slots.submit tag sqe : Checked Empty _).toOption
    return { q with core := { q.core with slots } }
  | .fail tag cid status => do
    guard q.booted
    (q.failReceiving tag cid status).toOption
  | .dispatch tag tables registry now slot => do
    guard q.booted
    (q.dispatch tag tables registry now slot).toOption.join
  | .resume tag answer =>
    match q.tasks tag with
    | some (.call (.io op) k) => (drive tag (k (answer op)) q).toOption
    | _ => none
  | .poll tag =>
    match q.tasks tag with
    | some (.call .event k) => (q.pollEvent tag k).toOption
    | _ => none
  | .nsChanged => some (q.onAdmin AdminState.fireNsChanged)
  | .close => some (q.onAdmin fun admin => { admin with closing := true })
  | .take =>
    match q.list with
    | [] => none
    | e :: rest => some { q with list := rest, batch := q.batch ++ [e] }
  | .post => some { q with sent := q.sent ++ q.batch, batch := [] }
  | .release tag => do
    let (_, slots) ← (q.core.slots.releaseTag tag : Checked Empty _).toOption
    return { q with core := { q.core with slots } }

end SendOrder

end Ioutgt.Target
