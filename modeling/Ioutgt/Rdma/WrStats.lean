import Mathlib.Algebra.Order.Group.Int
import Ioutgt.Lib.Run
import Ioutgt.Rdma.Sgl

/-!
# Work-request statistics of an RDMA queue

The counters a queue bumps as it posts work requests and reaps completions, from its construction
over the Connect bootstrap to the reap loop. A data transfer is posted as one work request per
contiguous run of its lease, of which only the last is signaled: the transfer is kept together here,
with the number of its runs.

What becomes of each completion is recorded: it is counted, or thrown away (by the bootstrap, which
returns in the middle of a batch and skips what it does not wait for, and by a failure, which ends
the loop that handles the batch).
-/

namespace Ioutgt.Rdma

inductive WrKind where
  | recv
  | send
  | write
  | read
  deriving DecidableEq, Repr

/-! ## Counters -/

/-- The counters of one kind. `posted` and `done` are cumulative, `inflight` is a live gauge. -/
structure WrClass where
  posted : Nat
  done : Nat
  inflight : Int
  deriving DecidableEq, Repr

namespace WrClass

def zero : WrClass := ⟨0, 0, 0⟩

def postN (c : WrClass) (n : Nat) : WrClass :=
  { c with posted := c.posted + n, inflight := c.inflight + n }

def post (c : WrClass) : WrClass := c.postN 1

def complete (c : WrClass) : WrClass := { c with done := c.done + 1, inflight := c.inflight - 1 }

def reset (c : WrClass) : WrClass := { c with posted := 0, done := 0 }

end WrClass

/-- A batch-size histogram: buckets for 1, 2, 3-4, 5-8, 9-16 and 17 or more. -/
structure BatchHist where
  buckets : List Nat
  deriving DecidableEq, Repr

namespace BatchHist

def zero : BatchHist := ⟨List.replicate 6 0⟩

def bucket (n : Nat) : Nat :=
  if n = 1 then 0 else if n = 2 then 1 else if n ≤ 4 then 2 else if n ≤ 8 then 3
  else if n ≤ 16 then 4 else 5

def record (h : BatchHist) (n : Nat) : BatchHist :=
  if n = 0 then h else ⟨h.buckets.modify (bucket n) (· + 1)⟩

end BatchHist

structure RdmaWrStats where
  read : WrClass
  write : WrClass
  send : WrClass
  recv : WrClass
  pollBatches : Nat
  sqDoorbells : Nat
  readDb : BatchHist
  respDb : BatchHist
  recvDb : BatchHist
  poll : BatchHist
  deriving DecidableEq, Repr

namespace RdmaWrStats

def zero : RdmaWrStats where
  read := .zero
  write := .zero
  send := .zero
  recv := .zero
  pollBatches := 0
  sqDoorbells := 0
  readDb := .zero
  respDb := .zero
  recvDb := .zero
  poll := .zero

def ofKind (s : RdmaWrStats) : WrKind → WrClass
  | .recv => s.recv
  | .send => s.send
  | .write => s.write
  | .read => s.read

def onKind (s : RdmaWrStats) (k : WrKind) (f : WrClass → WrClass) : RdmaWrStats :=
  match k with
  | .recv => { s with recv := f s.recv }
  | .send => { s with send := f s.send }
  | .write => { s with write := f s.write }
  | .read => { s with read := f s.read }

def doorbell (s : RdmaWrStats) : RdmaWrStats := { s with sqDoorbells := s.sqDoorbells + 1 }

def sqPost (s : RdmaWrStats) (k : WrKind) : RdmaWrStats := (s.onKind k WrClass.post).doorbell

def reset (s : RdmaWrStats) : RdmaWrStats where
  read := s.read.reset
  write := s.write.reset
  send := s.send.reset
  recv := s.recv.reset
  pollBatches := 0
  sqDoorbells := 0
  readDb := .zero
  respDb := .zero
  recvDb := .zero
  poll := .zero

def gauge (s : RdmaWrStats) (k : WrKind) : Nat := (s.ofKind k).inflight.toNat

end RdmaWrStats

/-! ## Posting and reaping -/

/-- The work requests of one kind and id that end in one completion. -/
structure Transfer where
  kind : WrKind
  low : Nat
  runs : Nat
  deriving DecidableEq, Repr

/-- A transfer over a lease: nothing is posted for no run. -/
def Transfer.over (kind : WrKind) (tag : Nat) (segs : List (List UInt8)) (len : Nat) :
    List Transfer :=
  let runs := (fillSges segs len).length
  if runs = 0 then [] else [{ kind, low := tag, runs }]

structure LeasedRead where
  tag : Nat
  segs : List (List UInt8)
  len : Nat

structure LeasedResp where
  tag : Nat
  segs : List (List UInt8)
  dataLen : Nat

def LeasedRead.transfers (r : LeasedRead) : List Transfer := Transfer.over .read r.tag r.segs r.len

def LeasedResp.writes (r : LeasedResp) : List Transfer :=
  if r.dataLen > 0 then Transfer.over .write r.tag r.segs r.dataLen else []

/-- The read-data WRITE, then the SEND of the completion. -/
def LeasedResp.transfers (r : LeasedResp) : List Transfer :=
  r.writes ++ [{ kind := .send, low := r.tag, runs := 1 }]

def Transfer.total (ts : List Transfer) : Nat := (ts.map (·.runs)).sum

structure Completion where
  transfer : Transfer
  ok : Bool
  deriving DecidableEq, Repr

inductive Phase where
  | setup
  | await (kind : WrKind)
  | reaping
  | ended
  deriving DecidableEq, Repr

structure WrQueue where
  stats : RdmaWrStats
  phase : Phase
  sq : List Transfer
  rq : List Transfer
  cq : List Completion
  comps : List Completion
  counted : List Transfer
  /-- Every transfer whose completion was thrown away. -/
  dropped : List Transfer
  deriving DecidableEq, Repr

namespace WrQueue

def new : WrQueue where
  stats := .zero
  phase := .setup
  sq := []
  rq := []
  cq := []
  comps := []
  counted := []
  dropped := []

def postRecv (q : WrQueue) (idx : Nat) : WrQueue :=
  { q with
    rq := q.rq ++ [{ kind := .recv, low := idx, runs := 1 }]
    stats := { q.stats.onKind .recv WrClass.post with recvDb := q.stats.recvDb.record 1 } }

def postReadCdata (q : WrQueue) : WrQueue :=
  { q with
    sq := q.sq ++ [{ kind := .read, low := 0, runs := 1 }]
    stats := q.stats.sqPost .read }

def postReadsBatch (q : WrQueue) (batch : List LeasedRead) : WrQueue :=
  if batch = [] then q
  else
    let reads := batch.flatMap LeasedRead.transfers
    let stats := (q.stats.onKind .read (·.postN (Transfer.total reads))).doorbell
    { q with
      sq := q.sq ++ reads
      stats := { stats with readDb := stats.readDb.record (Transfer.total reads) } }

def postResponsesBatch (q : WrQueue) (batch : List LeasedResp) : WrQueue :=
  if batch = [] then q
  else
    let writes := Transfer.total (batch.flatMap LeasedResp.writes)
    let sends := batch.length
    let stats := ((q.stats.onKind .write (·.postN writes)).onKind .send (·.postN sends)).doorbell
    { q with
      sq := q.sq ++ batch.flatMap LeasedResp.transfers
      stats := { stats with respDb := stats.respDb.record (writes + sends) } }

def nicSend (q : WrQueue) : Option WrQueue :=
  match q.sq with
  | [] => none
  | t :: rest => some { q with sq := rest, cq := q.cq ++ [⟨t, true⟩] }

def nicRecv (q : WrQueue) (idx : Nat) : Option WrQueue :=
  let t : Transfer := { kind := .recv, low := idx, runs := 1 }
  if t ∈ q.rq then some { q with rq := q.rq.erase t, cq := q.cq ++ [⟨t, true⟩] } else none

/-- The queue pair breaks: everything posted is flushed, unsignaled work requests included. -/
def nicFlush (q : WrQueue) : WrQueue :=
  { q with sq := [], rq := [], cq := q.cq ++ (q.sq ++ q.rq).map (⟨·, false⟩) }

def drainInto (q : WrQueue) : Option WrQueue :=
  if q.comps = [] then
    let stats :=
      if q.phase = .reaping ∧ q.cq ≠ [] then
        { q.stats with
          pollBatches := q.stats.pollBatches + 1
          poll := q.stats.poll.record q.cq.length }
      else q.stats
    match q.phase with
    | .await _ => some { q with cq := [], comps := q.cq, stats }
    | .reaping => some { q with cq := [], comps := q.cq, stats }
    | _ => none
  else none

def count (q : WrQueue) (t : Transfer) : WrQueue :=
  { q with stats := q.stats.onKind t.kind WrClass.complete, counted := q.counted ++ [t] }

def drop (q : WrQueue) (cs : List Completion) : WrQueue :=
  { q with dropped := q.dropped ++ cs.map (·.transfer) }

def handle (q : WrQueue) : Option WrQueue :=
  match q.comps with
  | [] => none
  | c :: rest =>
    match q.phase with
    | .reaping =>
      if c.ok then some ({ q with comps := rest }.count c.transfer)
      else some ({ q with comps := [], phase := .ended }.drop (c :: rest))
    | .await kind =>
      if c.ok = false then some ({ q with comps := [], phase := .ended }.drop (c :: rest))
      -- the awaited one: `await_bootstrap` returns, and with it the batch goes
      else if c.transfer.kind = kind then
        some (({ q with comps := [], phase := .setup }.count c.transfer).drop rest)
      else
        match c.transfer.kind with
        | .send => some ({ q with comps := rest }.count c.transfer)
        | .write => some ({ q with comps := rest }.count c.transfer)
        -- not awaited: ignored
        | .recv => some ({ q with comps := rest }.drop [c])
        | .read => some ({ q with comps := rest }.drop [c])
    | _ => none

def abort (q : WrQueue) : WrQueue := { q with comps := [], phase := .ended }.drop q.comps

end WrQueue

inductive WrAction where
  | postRecv (idx : Nat)
  | postReadCdata
  | postReads (batch : List LeasedRead)
  | postResponses (batch : List LeasedResp)
  | nicSend
  | nicRecv (idx : Nat)
  | nicFlush
  | await (kind : WrKind)
  | reap
  | drainInto
  | handle
  | abort
  | clear

def WrQueue.step (q : WrQueue) : WrAction → Option WrQueue
  | .postRecv idx => some (q.postRecv idx)
  | .postReadCdata => some q.postReadCdata
  | .postReads batch => some (q.postReadsBatch batch)
  | .postResponses batch => some (q.postResponsesBatch batch)
  | .nicSend => q.nicSend
  | .nicRecv idx => q.nicRecv idx
  | .nicFlush => some q.nicFlush
  | .await kind => if q.phase = .setup then some { q with phase := .await kind } else none
  | .reap => if q.phase = .setup then some { q with phase := .reaping } else none
  | .drainInto => q.drainInto
  | .handle => q.handle
  | .abort => if q.phase = .reaping then some q.abort else none
  | .clear => some { q with stats := q.stats.reset }

/-! ## What the gauges should show -/

def wrs (k : WrKind) (ts : List Transfer) : Nat :=
  (ts.map fun t => if t.kind = k then t.runs else 0).sum

namespace WrQueue

/-- The work requests of a kind that are posted and not yet finished: whose completion, or that of
the transfer they belong to, was not yet handled. -/
def unfinished (q : WrQueue) (k : WrKind) : Nat :=
  wrs k (q.sq ++ q.rq ++ q.cq.map (·.transfer) ++ q.comps.map (·.transfer))

/-- **Every gauge shows what is unfinished.** -/
def GaugesExact (q : WrQueue) : Prop :=
  ∀ k, (q.stats.ofKind k).inflight = q.unfinished k

/-- The bootstrap, while it waits for `kind`, throws nothing of this batch away: the completion it
waits for is the last, and of the others it services SENDs and WRITEs. -/
def Spares (phase : Phase) (t : Transfer) (rest : List Completion) : Prop :=
  match phase with
  | .await kind => if t.kind = kind then rest = [] else t.kind = .send ∨ t.kind = .write
  | _ => True

instance (t : Transfer) (rest : List Completion) : ∀ phase, Decidable (Spares phase t rest)
  | .await kind => inferInstanceAs (Decidable
      (if t.kind = kind then rest = [] else t.kind = .send ∨ t.kind = .write))
  | .setup | .reaping | .ended => .isTrue trivial

/-- A handled completion must have succeeded, be of a single run, and not have the bootstrap throw
anything away. -/
def HandlesOne (q : WrQueue) : Prop :=
  ∀ c ∈ q.comps.head?, c.ok = true ∧ c.transfer.runs = 1 ∧ Spares q.phase c.transfer q.comps.tail

instance (q : WrQueue) : Decidable q.HandlesOne := inferInstanceAs (Decidable (∀ _ ∈ _, _))

def CountsAll (q : WrQueue) : WrAction → Prop
  | .handle => q.HandlesOne
  | .abort => q.comps = []
  | _ => True

instance (q : WrQueue) : ∀ a, Decidable (q.CountsAll a)
  | .handle => inferInstanceAs (Decidable q.HandlesOne)
  | .abort => inferInstanceAs (Decidable (q.comps = []))
  | .postRecv _ | .postReadCdata | .postReads _ | .postResponses _ | .nicSend | .nicRecv _
  | .nicFlush | .await _ | .reap | .drainInto | .clear => .isTrue trivial

end WrQueue

end Ioutgt.Rdma
