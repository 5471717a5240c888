import Ioutgt.Lib.Tally
import Ioutgt.Target.Queues

/-!
# An admin queue and its event requests

The receive path claims a slot for each arriving command and submits it; the slot's task dispatches
it and posts the completion; the send path releases the slot. All of it runs on one thread, so a poll
of a task is one step. Every admin command completes in the poll that dispatches it, except an
Asynchronous Event Request with no event pending: its task registers a waker and keeps the slot until
it is polled again. Commands come with the namespace tables and the registry of their moment.
-/

namespace Ioutgt.Target

open Lib Ioutgt.Core Ioutgt.Nvme

structure AdminQueue where
  port : PortConfig
  conn : QueueConn
  admin : AdminState
  slots : SlotArray Sqe
  aerWakers : List Nat
  /-- Tags of the slot tasks that were woken out of that wait and have not run since. -/
  woken : List Nat

inductive AdminAction (B : Type) where
  | claim
  | submit (tag : Nat) (sqe : Sqe)
  | reject (tag : Nat)
  | dispatch (tag : Nat) (tables : Admin.Tables B) (registry : Registry) (now : Nat)
    (slot : SlotView)
  | poll (tag : Nat)
  | release (tag : Nat)
  | nsChanged
  | close

structure Answer where
  tag : Nat
  sqe : Sqe
  out : Outcome
  deriving DecidableEq, Repr

namespace AdminQueue

variable {B : Type}

def start (port : PortConfig) (conn : QueueConn) (now : Nat) : AdminQueue where
  port := port
  conn := conn
  admin := .new now
  slots := .new conn.sqsize Sqe.zeroed
  aerWakers := []
  woken := []

def ctx (q : AdminQueue) : ConnCtx (Volume B) :=
  { (q.conn.ctx q.port 0 : ConnCtx (Volume B)) with role := .admin q.admin }

def wakeAll (q : AdminQueue) : AdminQueue :=
  { q with woken := q.woken ++ q.aerWakers, aerWakers := [] }

/-- Namespace inventory changed: a notice is made pending (if the host enabled it) and the waiting
requests are woken. -/
def fireNsChanged (q : AdminQueue) : AdminQueue :=
  let q := { q with admin := q.admin.fireNsChanged }
  if q.admin.aec &&& aenCfgNsAttr = 0 then q else q.wakeAll

def close (q : AdminQueue) : AdminQueue :=
  wakeAll { q with admin := { q.admin with closing := true } }

def ran (q : AdminQueue) (tag : Nat) : AdminQueue :=
  { q with woken := q.woken.filter (· ≠ tag) }

def complete (q : AdminQueue) (tag : Nat) (sqe : Sqe) (out : Outcome) :
    Checked Empty (AdminQueue × Option Answer) := do
  let slots ← q.slots.beginRespond tag
  return ({ q with slots }, some { tag, sqe, out })

def park (q : AdminQueue) (tag : Nat) : AdminQueue × Option Answer :=
  ({ q with aerWakers := q.aerWakers ++ [tag] }, none)

/-- One poll of the slot task of `tag` when it has no command: it takes up the submitted one, if any,
and runs it to its end or to where it waits. -/
def dispatch [Backend B] (q : AdminQueue) (tag : Nat) (tables : Admin.Tables B)
    (registry : Registry) (now : Nat) (slot : SlotView) :
    Checked Empty (Option (AdminQueue × Option Answer)) := do
  match ← q.slots.awaitCommand tag with
  | none => return none
  | some (sqe, slots) =>
    let q := { q.ran tag with slots }
    let (reply, ctx, _) ← execute q.ctx tables registry now slot sqe
    match ctx.role, reply with
    | .admin admin, .done out => return some (← complete { q with admin } tag sqe out)
    | .admin admin, .parked => return some (park { q with admin } tag)
    -- an admin queue stays one, and calls no backend
    | _, _ => .abort .unreachable

def poll (q : AdminQueue) (tag : Nat) : Checked Empty (Option (AdminQueue × Option Answer)) := do
  let s ← q.slots.slot tag
  if s.state = .executing then
    match Admin.asyncEvent q.admin with
    | (some out, admin) => return some (← complete { q.ran tag with admin } tag s.cmd out)
    | (none, admin) => return some (park { q.ran tag with admin } tag)
  else return none

def step [Backend B] (q : AdminQueue) : AdminAction B → Option (AdminQueue × Option Answer)
  | .claim => do
    let (_, slots) ← (← (q.slots.claimTag : Checked Empty _).toOption)
    return ({ q with slots }, none)
  | .submit tag sqe => do
    let slots ← (q.slots.submit tag sqe : Checked Empty _).toOption
    return ({ q with slots }, none)
  | .reject tag => do
    let slots ← (q.slots.respondReceiving tag : Checked Empty _).toOption
    return ({ q with slots }, none)
  | .dispatch tag tables registry now slot => (q.dispatch tag tables registry now slot).toOption.join
  | .poll tag => (q.poll tag).toOption.join
  | .release tag => do
    let (_, slots) ← (q.slots.releaseTag tag : Checked Empty _).toOption
    return ({ q with slots }, none)
  | .nsChanged => some (q.fireNsChanged, none)
  | .close => some (q.close, none)

def next [Backend B] (q : AdminQueue) (a : AdminAction B) : Option AdminQueue :=
  (q.step a).map (·.1)

end AdminQueue

/-! ## Requests -/

def waitsForEvent (s : Slot Sqe) : Bool :=
  s.state == .executing && s.cmd.opcode == AdminOpcode.asyncEvent

namespace AdminQueue

variable {B : Type}

def outstanding (q : AdminQueue) : Nat := tally q.slots.nslots waitsForEvent q.slots.slots

def Submitted (q : AdminQueue) (tag : Nat) : Prop :=
  tag < q.slots.nslots ∧ (q.slots.slots tag).state = .ready

instance (q : AdminQueue) (tag : Nat) : Decidable (q.Submitted tag) :=
  inferInstanceAs (Decidable (_ ∧ _))

def RequestsEvent (q : AdminQueue) : AdminAction B → Prop
  | .dispatch tag .. => q.Submitted tag ∧
      (q.slots.slots tag).cmd.opcode = AdminOpcode.asyncEvent ∧ q.admin.regs.ready = true
  | _ => False

instance (q : AdminQueue) : ∀ a : AdminAction B, Decidable (q.RequestsEvent a)
  | .dispatch .. => inferInstanceAs (Decidable (_ ∧ _))
  | .claim | .submit .. | .reject .. | .poll .. | .release .. | .nsChanged | .close =>
    inferInstanceAs (Decidable False)

def ReadsChangedNs (q : AdminQueue) : AdminAction B → Prop
  | .dispatch tag .. => q.Submitted tag ∧
      (q.slots.slots tag).cmd.opcode = AdminOpcode.getLogPage ∧
      (q.slots.slots tag).cmd.cdw10 &&& 0xFF = LogPage.changedNs ∧ q.admin.regs.ready = true
  | _ => False

def Settled (q : AdminQueue) : Prop := q.woken = [] ∧ ∀ tag, ¬q.Submitted tag

end AdminQueue

/-! ## The notices, numbered -/

structure EventAnswer where
  /-- Requests are numbered in the order they are dispatched. -/
  request : Nat
  out : Outcome
  /-- The notice that was taken off the queue for it. -/
  notice : Option Nat
  deriving DecidableEq, Repr

/-- What became of the notices: they are numbered in the order they are queued. -/
structure Ledger where
  notices : Nat
  queued : List Nat
  /-- For each change signalled while the notice was enabled: the notice at the end of the queue right
  after it. -/
  left : List (Option Nat)
  requests : Nat
  /-- The number of the request last dispatched on each tag. -/
  current : Nat → Nat
  answers : List EventAnswer

namespace Ledger

variable {B : Type}

def start : Ledger where
  notices := 0
  queued := []
  left := []
  requests := 0
  current := fun _ => 0
  answers := []

def noteAnswer (l : Ledger) (before after : AdminQueue) (tag : Nat) (ans : Option Answer) : Ledger :=
  match ans with
  | none => l
  | some ans =>
    if after.admin.events.length < before.admin.events.length then
      { l with
        queued := l.queued.tail
        answers := l.answers ++
          [{ request := l.current tag, out := ans.out, notice := l.queued.head? }] }
    else
      { l with
        answers := l.answers ++ [{ request := l.current tag, out := ans.out, notice := none }] }

def noteChange (l : Ledger) (before after : AdminQueue) : Ledger :=
  let l := if before.admin.events.length < after.admin.events.length then
      { l with queued := l.queued ++ [l.notices], notices := l.notices + 1 }
    else l
  { l with left := l.left ++ [l.queued.getLast?] }

def note (l : Ledger) (before after : AdminQueue) (ans : Option Answer) : AdminAction B → Ledger
  | .nsChanged =>
    if before.admin.aec &&& aenCfgNsAttr = 0 then l else l.noteChange before after
  | .dispatch tag .. =>
    if (before.slots.slots tag).cmd.opcode = AdminOpcode.asyncEvent then
      noteAnswer { l with
        requests := l.requests + 1
        current := Function.update l.current tag l.requests } before after tag ans
    else l
  | .poll tag => l.noteAnswer before after tag ans
  | _ => l

end Ledger

structure RecordedAdmin where
  queue : AdminQueue
  ledger : Ledger

namespace RecordedAdmin

variable {B : Type}

def start (port : PortConfig) (conn : QueueConn) (now : Nat) : RecordedAdmin where
  queue := .start port conn now
  ledger := .start

def step [Backend B] (w : RecordedAdmin) (a : AdminAction B) : Option RecordedAdmin :=
  (w.queue.step a).map fun r =>
    { queue := r.1, ledger := w.ledger.note w.queue r.1 r.2 a }

end RecordedAdmin

end Ioutgt.Target
