import Ioutgt.Lib.Run
import Ioutgt.Uring.Slab

/-!
# A queue thread goes to sleep

The reactor's park hook (`Reactor::park`), which the scheduler calls when no task is runnable, with the
probes that the RDMA queues of the thread have registered (`install_park_probe`), step by step: the
device and the kernel may do something between any two steps of the thread. While the hook is not
running, tasks are.

Of a queue's reap loop (`run`) the model has what bears on sleeping: what it takes from its poll, its
staged completions and its CQ, and how it waits for more. What the device does with an armed CQ is an
assumption: the next completion added raises one event, and the CQ is no longer armed. Polling a CQ is
taken to yield what is in it.

What a pass over the probes has met, and how each call of the hook has ended, is put on record.
-/

namespace Ioutgt.Rdma

open Ioutgt.Uring

inductive PollState where
  | unsubmitted
  | armed
  | ended
  deriving DecidableEq, Repr

/-- An RDMA queue in its reap loop, which is the task of the queue's number. -/
structure ProbedQueue where
  poll : Bool
  idle : Bool
  cq : List (Nat × Nat)
  armed : Bool
  events : Nat
  compPoll : Nat
  pollState : PollState
  pollDone : Bool
  staged : List (Nat × Nat)
  waker : Bool
  deriving DecidableEq, Repr

namespace ProbedQueue

def readable (q : ProbedQueue) : Cqe :=
  { key := some q.compPoll, result := { result := 1, more := true } }

def arrive (q : ProbedQueue) (wc : Nat × Nat) : ProbedQueue :=
  { q with cq := q.cq ++ [wc], armed := false, events := if q.armed then q.events + 1 else q.events }

def submitted (q : ProbedQueue) : ProbedQueue :=
  { q with pollState := if q.pollState = .unsubmitted then .armed else q.pollState }

def drain (q : ProbedQueue) : ProbedQueue := { q with staged := q.staged ++ q.cq, cq := [] }

def maySleep (q : ProbedQueue) : Bool := q.staged.isEmpty && (!q.poll || q.idle)

/-- The spin predicate, while the grace period lasts or not. -/
def spins (q : ProbedQueue) (grace : Bool) : Bool := q.poll && (!q.idle || grace)

end ProbedQueue

inductive ProbeStep where
  | drain
  | arm
  | redrain
  | finish
  deriving DecidableEq, Repr

inductive Loc where
  | tasks
  | top
  | probing (todo : List Nat) (step : ProbeStep)
  | spinCheck
  | wait
  | sleeping
  | waited
  | dead
  deriving DecidableEq, Repr

/-- How a call of the hook ended: the tasks it had woken, the operations in flight, and whether a probe
had reported work. -/
structure Return where
  woken : List Nat
  ops : Nat
  work : Bool
  deriving DecidableEq, Repr

structure ParkThread where
  loc : Loc
  queues : Nat → Option ProbedQueue
  probes : List Nat
  slab : Slab
  nextKey : Nat
  ring : List Cqe
  /-- Tasks to run; in the hook, those it has woken. -/
  runnable : List Nat
  work : Bool
  failed : Bool
  /-- In this pass, a completion was taken off a CQ. -/
  found : Bool
  returns : List Return

inductive ParkAction where
  -- the device and the kernel, at any time
  | arrive (k : Nat) (wc : Nat × Nat)
  | pollEnds (k : Nat) (result : Int)
  /-- A completion of an operation other than the queues' polls. -/
  | complete (key : Nat) (result : CqeResult)
  | cancelled (result : CqeResult)
  -- tasks
  /-- A queue past its bootstrap enters its reap loop. -/
  | install (k : Nat) (poll idle : Bool) (cq : List (Nat × Nat)) (armed : Bool) (events : Nat)
  | acknowledge (k : Nat)
  | processCqes (k : Nat)
  /-- The backstop timer of queue `k` arms its CQ and processes it. -/
  | backstop (k : Nat)
  | setIdle (k : Nat) (idle : Bool)
  | pend (k : Nat)
  | leave (k : Nat)
  | submit
  | pollOp (multi : Bool) (key task : Nat)
  | dropOp (key : Nat)
  | wake (task : Nat)
  | rest (task : Nat)
  | flush
  -- the hook
  | park
  | reap
  | probeDrain
  | probeArm (ok : Bool)
  | probeRedrain
  | probeFinish
  | endPass
  | spinOrSleep (grace : Nat → Bool) (entered : Bool)
  | enter
  | enterFails (fatal : Bool)
  | wakeUp (interrupted : Bool)

namespace ParkThread

def start : ParkThread where
  loc := .tasks
  queues := fun _ => none
  probes := []
  slab := .empty
  nextKey := 0
  ring := []
  runnable := []
  work := false
  failed := false
  found := false
  returns := []

def setQueue (s : ParkThread) (k : Nat) (q : ProbedQueue) : ParkThread :=
  { s with queues := Function.update s.queues k (some q) }

def post (s : ParkThread) (cqes : List Cqe) : ParkThread := { s with ring := s.ring ++ cqes }

/-- The completion a poll posts as it is submitted, if its channel is readable by then. -/
def submitPost (q : ProbedQueue) : List Cqe :=
  if q.pollState = .unsubmitted ∧ 0 < q.events then [q.readable] else []

def submitAll (s : ParkThread) : ParkThread :=
  { s with
    queues := fun k => (s.queues k).map ProbedQueue.submitted
    ring := s.ring ++ s.probes.flatMap fun k => (s.queues k).elim [] submitPost }

def finishPark (s : ParkThread) : ParkThread :=
  { s with
    loc := .tasks
    returns := s.returns ++ [{ woken := s.runnable, ops := s.slab.len, work := s.work }] }

def reapAll (s : ParkThread) (next : ParkThread → ParkThread) : ParkThread :=
  let r := s.slab.reap s.ring
  let s := { s with slab := r.1, ring := [], runnable := s.runnable ++ r.2 }
  if r.2.isEmpty then next s else s.finishPark

def beginPass (s : ParkThread) : ParkThread :=
  { s with loc := .probing s.probes .drain, work := false, failed := false, found := false }

def drainQueue (s : ParkThread) (k : Nat) (q : ProbedQueue) : ParkThread :=
  { s.setQueue k q.drain with found := s.found || !q.cq.isEmpty }

def finishProbe (s : ParkThread) (k : Nat) (rest : List Nat) (q : ProbedQueue) : ParkThread :=
  if q.staged.isEmpty then { s with loc := .probing rest .drain }
  else if q.waker then
    { s.setQueue k { q with waker := false } with
      runnable := s.runnable ++ [k], work := true, loc := .probing rest .drain }
  else { s with work := true, loc := .probing rest .drain }

def installed (s : ParkThread) (k : Nat) (q : ProbedQueue) : ParkThread :=
  { s.setQueue k q with
    probes := s.probes ++ [k]
    slab := s.slab.insert q.compPoll .new
    nextKey := s.nextKey + 1
    runnable := k :: s.runnable }

/-- The probe is removed. The poll is from now on like any other operation, until `run` returns and
drops it (`dropOp`). -/
def left (s : ParkThread) (k : Nat) : ParkThread :=
  { s with queues := Function.update s.queues k none, probes := s.probes.erase k }

def isOther (s : ParkThread) (key : Nat) : Bool :=
  s.probes.all fun k => (s.queues k).all fun q => q.compPoll ≠ key

def running (s : ParkThread) (k : Nat) : Option ProbedQueue :=
  if s.loc = .tasks ∧ k ∈ s.runnable then s.queues k else none

def step (s : ParkThread) : ParkAction → Option ParkThread
  | .arrive k wc => do
    let q ← s.queues k
    let posted := if q.armed ∧ q.pollState = .armed then [q.readable] else []
    return (s.setQueue k (q.arrive wc)).post posted
  | .pollEnds k result => do
    let q ← s.queues k
    if q.pollState = .armed then
      return (s.setQueue k { q with pollState := .ended }).post
        [{ key := some q.compPoll, result := { result, more := false } }]
    else none
  | .complete key result =>
    if s.isOther key then some (s.post [{ key := some key, result }]) else none
  | .cancelled result => some (s.post [{ key := none, result }])
  | .install k poll idle cq armed events =>
    if s.loc = .tasks ∧ s.queues k = none then
      some (s.installed k
        { poll, idle, cq, armed, events, compPoll := s.nextKey, pollState := .unsubmitted,
          pollDone := false, staged := [], waker := false })
    else none
  | .acknowledge k => do
    let q ← s.running k
    if q.pollDone then none
    else
      match ← s.slab.pollNext q.compPoll k with
      | (.ready _, pollDone, slab) =>
        return { s.setQueue k { q with events := 0, pollDone } with slab }
      | _ => none
  | .processCqes k => do
    let q ← s.running k
    return s.setQueue k { q with staged := [], cq := [] }
  | .backstop k => do
    let q ← s.running k
    return s.setQueue k { q with armed := true, staged := [], cq := [] }
  | .setIdle k idle => do
    let q ← s.queues k
    if s.loc = .tasks then return s.setQueue k { q with idle } else none
  | .pend k => do
    let q ← s.running k
    if q.pollDone ∨ q.staged ≠ [] then none
    else
      match ← s.slab.pollNext q.compPoll k with
      | (.pending, _, slab) =>
        return { s.setQueue k { q with waker := true } with
          slab, runnable := s.runnable.filter (· ≠ k) }
      | _ => none
  | .leave k => do
    let _ ← s.running k
    return s.left k
  | .submit =>
    if s.loc = .tasks then
      some { s with slab := s.slab.insert s.nextKey .new, nextKey := s.nextKey + 1 }
    else none
  | .pollOp multi key task =>
    if s.loc = .tasks ∧ s.isOther key then
      (if multi then s.slab.pollNext key task else s.slab.pollSingle key task).map fun r =>
        { s with slab := r.2.2 }
    else none
  | .dropOp key =>
    if s.loc = .tasks ∧ s.isOther key then some { s with slab := s.slab.orphan key } else none
  | .wake task =>
    if s.loc = .tasks then some { s with runnable := task :: s.runnable } else none
  | .rest task =>
    if s.loc = .tasks ∧ s.queues task = none then
      some { s with runnable := s.runnable.filter (· ≠ task) }
    else none
  | .flush => if s.loc = .tasks then some s.submitAll else none
  | .park =>
    if s.loc = .tasks ∧ s.runnable = [] then some { s with loc := .top, work := false } else none
  | .reap =>
    match s.loc with
    | .top => some (s.reapAll beginPass)
    | .waited => some (s.reapAll fun s => { s with loc := .top })
    | _ => none
  | .probeDrain =>
    match s.loc with
    | .probing (k :: rest) .drain => (s.queues k).map fun q =>
      { s.drainQueue k q with
        loc := .probing (k :: rest) (if q.drain.maySleep then .arm else .finish) }
    | _ => none
  | .probeArm ok =>
    match s.loc with
    | .probing (k :: rest) .arm => (s.queues k).map fun q =>
      if ok then { s.setQueue k { q with armed := true } with loc := .probing (k :: rest) .redrain }
      else { s with failed := true, work := true, loc := .probing rest .drain }
    | _ => none
  | .probeRedrain =>
    match s.loc with
    | .probing (k :: rest) .redrain => (s.queues k).map fun q =>
      { s.drainQueue k q with loc := .probing (k :: rest) .finish }
    | _ => none
  | .probeFinish =>
    match s.loc with
    | .probing (k :: rest) .finish => (s.queues k).map fun q => s.finishProbe k rest q
    | _ => none
  | .endPass =>
    match s.loc with
    | .probing [] _ => some (if s.work then s.finishPark else { s with loc := .spinCheck })
    | _ => none
  | .spinOrSleep grace entered =>
    if s.loc = .spinCheck then
      if s.probes.any fun k => (s.queues k).any fun q => q.spins (grace k) then
        some { (if entered then s.submitAll else s) with loc := .top }
      else if s.slab.isEmpty then some s.finishPark
      else some { s with loc := .wait }
    else none
  | .enter => if s.loc = .wait then some { s.submitAll with loc := .sleeping } else none
  | .enterFails fatal =>
    if s.loc = .wait then some { s with loc := if fatal then .dead else .waited } else none
  | .wakeUp interrupted =>
    if s.loc = .sleeping ∧ (s.ring ≠ [] ∨ interrupted) then some { s with loc := .waited } else none

/-- The poll of queue `q` has something to report in the ring, or will have once it is submitted. -/
def Signalled (s : ParkThread) (q : ProbedQueue) : Prop :=
  (∃ cqe ∈ s.ring, cqe.key = some q.compPoll) ∨ q.pollState = .unsubmitted ∧ 0 < q.events

/-- **Nothing of queue `q` can be missed**: nothing is staged, and its CQ was armed and then found empty,
as it still is, or the poll of its channel has something to report since. -/
def Watched (s : ParkThread) (q : ProbedQueue) : Prop :=
  q.staged = [] ∧ (q.armed = true ∧ q.cq = [] ∨ s.Signalled q)

/-- **When arming a CQ fails in a pass over the probes, some probe of that pass finds a completion.** -/
def FailureFindsWork (s : ParkThread) : ParkAction → Prop
  | .endPass => s.failed = true → s.found = true
  | _ => True

instance (s : ParkThread) : ∀ a, Decidable (s.FailureFindsWork a)
  | .endPass => inferInstanceAs (Decidable (s.failed = true → s.found = true))
  | .arrive .. | .pollEnds .. | .complete .. | .cancelled .. | .install .. | .acknowledge ..
  | .processCqes .. | .backstop .. | .setIdle .. | .pend .. | .leave .. | .submit
  | .pollOp .. | .dropOp .. | .wake .. | .rest .. | .flush | .park | .reap
  | .probeDrain | .probeArm .. | .probeRedrain | .probeFinish | .spinOrSleep ..
  | .enter | .enterFails .. | .wakeUp .. => .isTrue trivial

/-- The hook ended as it should: a task was woken, or no operation is in flight and no probe reported
work. -/
def SoundReturn (r : Return) : Prop := r.woken ≠ [] ∨ r.ops = 0 ∧ r.work = false

end ParkThread

end Ioutgt.Rdma
