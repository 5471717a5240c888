import Mathlib.Algebra.BigOperators.Group.List.Basic
import Mathlib.Data.UInt
import Ioutgt.Lib.Run

/-!
# The statistics of a queue thread

A queue counts into cells that it shares with its thread's list. An entry that only the list still
holds is folded into the accumulator of the retired queues, at the next handoff or request. The
counters of its transport are reported while it lives and go with it.

All of it runs on one thread: a request is pruned, answered and cleared in one step. Over TCP a queue is
listed before it counts; over RDMA `bootstrap` has executed the Connect by then, without a suspension
in between.
-/

namespace Ioutgt.Harness

inductive Counter where
  | readCmds
  | writeCmds
  | flushCmds
  | otherCmds
  | readBytes
  | writeBytes
  | errors
  deriving DecidableEq, Repr

structure QueueStatsSnapshot where
  qid : UInt16
  cntlid : UInt16
  count : Counter → UInt64

namespace QueueStatsSnapshot

def default : QueueStatsSnapshot := ⟨0, 0, fun _ => 0⟩

/-- The identity stays untouched. -/
def absorb (s other : QueueStatsSnapshot) : QueueStatsSnapshot :=
  { s with count := fun k => s.count k + other.count k }

end QueueStatsSnapshot

class TransportStats (T : Type) where
  snapshot : T → List (String × UInt64)
  reset : T → T

variable {T : Type} [TransportStats T]

structure QueueStats (T : Type) where
  qid : UInt16
  cntlid : UInt16
  cell : Counter → UInt64
  transport : Option T

namespace QueueStats

def new (qid : UInt16) : QueueStats T := ⟨qid, 0, fun _ => 0, none⟩

def transportSnapshot (q : QueueStats T) : Option (List (String × UInt64)) :=
  q.transport.map TransportStats.snapshot

def snapshot (q : QueueStats T) : QueueStatsSnapshot := ⟨q.qid, q.cntlid, q.cell⟩

def reset (q : QueueStats T) : QueueStats T :=
  { q with cell := fun _ => 0, transport := q.transport.map TransportStats.reset }

def statAdd (q : QueueStats T) (k : Counter) (n : UInt64) : QueueStats T :=
  { q with cell := Function.update q.cell k (q.cell k + n) }

end QueueStats

structure Entry (T : Type) where
  stats : QueueStats T
  /-- `Rc::strong_count` is above one: the queue has not ended. -/
  held : Bool

/-- Each live queue with what stands under `"wr"`, and the retired accumulator. -/
structure StatsReply where
  queues : List (QueueStatsSnapshot × Option (List (String × UInt64)))
  retired : QueueStatsSnapshot

namespace StatsReply

def total (r : StatsReply) (k : Counter) : UInt64 :=
  (r.queues.map (·.1.count k)).sum + r.retired.count k

def wr (r : StatsReply) (label : String) : UInt64 :=
  ((r.queues.filterMap (·.2)).map fun wr => (wr.lookup label).getD 0).sum

end StatsReply

structure ThreadStats (T : Type) where
  queues : List (Entry T)
  retired : QueueStatsSnapshot
  /-- The replies that were followed by a clear. -/
  cleared : List StatsReply

namespace ThreadStats

def start : ThreadStats T := ⟨[], .default, []⟩

def reply (s : ThreadStats T) : StatsReply :=
  ⟨s.queues.map fun e => (e.stats.snapshot, e.stats.transportSnapshot), s.retired⟩

def total (s : ThreadStats T) (k : Counter) : UInt64 := s.reply.total k

def pruneDeadQueues (s : ThreadStats T) : ThreadStats T :=
  { s with
    queues := s.queues.filter (·.held)
    retired := (s.queues.filter (!·.held)).foldl (fun r e => r.absorb e.stats.snapshot) s.retired }

def clearThreadStats (s : ThreadStats T) : ThreadStats T :=
  { s with queues := s.queues.map fun e => { e with stats := e.stats.reset }, retired := .default }

def replyThreadStats (s : ThreadStats T) (clear : Bool) : ThreadStats T :=
  let s := s.pruneDeadQueues
  if clear then { s.clearThreadStats with cleared := s.cleared ++ [s.reply] } else s

end ThreadStats

inductive StatsAction (T : Type) where
  | conn
  /-- `on_ctx` of a queue that has counted `boot`, and its transport `wr`. -/
  | register (qid : UInt16) (boot : Counter → UInt64) (wr : Option T)
  | setCntlid (i : Nat) (cntlid : UInt16)
  | count (i : Nat) (k : Counter) (n : UInt64)
  | transport (i : Nat) (f : T → T)
  | ends (i : Nat)
  | stats (clear : Bool)

def StatsAction.counts (k : Counter) : StatsAction T → UInt64
  | .register _ boot _ => boot k
  | .count _ k' n => if k = k' then n else 0
  | _ => 0

def StatsAction.clears : StatsAction T → Bool
  | .stats clear => clear
  | _ => false

def sinceClear (as : List (StatsAction T)) : List (StatsAction T) :=
  as.foldl (fun since a => if a.clears then [] else since ++ [a]) []

def eventsCounted (k : Counter) (as : List (StatsAction T)) : Nat := (as.map (·.counts k |>.toNat)).sum

namespace ThreadStats

def own (s : ThreadStats T) (i : Nat) (f : Entry T → Entry T) : Option (ThreadStats T) :=
  match s.queues[i]? with
  | some e => if e.held then some { s with queues := s.queues.set i (f e) } else none
  | none => none

def step (s : ThreadStats T) : StatsAction T → Option (ThreadStats T)
  | .conn => some s.pruneDeadQueues
  | .register qid boot wr =>
    let stats : QueueStats T := .new qid
    some { s with queues := s.queues ++ [⟨{ stats with cell := boot, transport := wr }, true⟩] }
  | .setCntlid i cntlid => s.own i fun e => { e with stats := { e.stats with cntlid } }
  | .count i k n => s.own i fun e => { e with stats := e.stats.statAdd k n }
  | .transport i f =>
    s.own i fun e => { e with stats := { e.stats with transport := e.stats.transport.map f } }
  | .ends i => s.own i fun e => { e with held := false }
  | .stats clear => some (s.replyThreadStats clear)

end ThreadStats

end Ioutgt.Harness
