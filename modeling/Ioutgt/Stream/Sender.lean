import Ioutgt.Tcp.Send
import Ioutgt.Uring.SendBatch
import Mathlib.Data.List.FinRange

/-!
# The stream sender

The send task of a stream transport: it drains an ordered list of work into one of two gather
batches, ships the batch, resumes short sends in place, falls back to copying when zero-copy is
refused, and gives a tag back when nothing references the memory behind it any more. One `run` step
takes the task from one await to the next; the send list, the kernel's answers and the arrivals of
zero-copy notifications are steps of their own.
-/

namespace Ioutgt.Stream

open Lib Ioutgt.Uring
open Ioutgt.Tcp (Staged)

/-! ## Staging an item -/

/-- A piece of a staged item: header bytes encoded into the arena, or payload referenced in place. -/
inductive StagedPiece where
  | arena (bytes : List UInt8)
  | raw (ptr len : Nat)
  deriving DecidableEq, Repr

def StagedPiece.isRaw : StagedPiece → Bool
  | arena _ => false
  | raw .. => true

/-- What the staging closure does with one item. A tag whose memory is referenced waits for the
notifications. -/
structure Stage where
  pieces : List StagedPiece
  /-- The payload the closure notes, if the item has any. -/
  payload : Option Nat
  release : Staged
  gated : pieces.any StagedPiece.isRaw = true → ∃ tag, release = .atNotif tag

def Stage.InPlace (st : Stage) : Prop := st.pieces.any StagedPiece.isRaw = true

def Stage.tag (st : Stage) : Option Nat :=
  match st.release with
  | .atNotif tag => some tag
  | .atCqe tag => some tag
  | .noRelease => none

def stagePiece (x : Memory × GatherBatch) : StagedPiece → Memory × GatherBatch
  | .arena bytes => (x.1.store (x.2.arenaPtr + x.2.arenaUsed) bytes, x.2.pushArena bytes.length)
  | .raw ptr len => (x.1, x.2.pushRaw ptr len)

def Stage.apply (st : Stage) (m : Memory) (g : GatherBatch) : Memory × GatherBatch :=
  let x := st.pieces.foldl stagePiece (m, g)
  match st.payload with
  | some n => (x.1, x.2.notePayload n)
  | none => x

/-! ## Batches -/

/-- A tag to give back, with the number of the staged item it came with (which no code reads). -/
structure Ticket where
  tag : Nat
  item : Nat
  deriving DecidableEq, Repr

structure GatherSendBatch where
  gather : GatherBatch
  arenaPerItem : Nat
  iovsPerItem : Nat
  tagsAtCqe : List Ticket
  tagsAtNotif : List Ticket
  /-- One notification per zero-copy operation issued for this batch, by the operation's number. -/
  pendingNotifs : List Nat
  deriving DecidableEq, Repr

namespace GatherSendBatch

def around (gather : GatherBatch) (arenaPerItem iovsPerItem : Nat) : GatherSendBatch where
  gather := gather
  arenaPerItem := arenaPerItem
  iovsPerItem := iovsPerItem
  tagsAtCqe := []
  tagsAtNotif := []
  pendingNotifs := []

def new (n arenaPerItem iovsPerItem arenaPtr : Nat) : GatherSendBatch :=
  around (.new arenaPtr (n * arenaPerItem) (n * iovsPerItem + iovsPerItem)) arenaPerItem iovsPerItem

def withPoolArena (n arenaPerItem iovsPerItem arenaPtr bufIndex : Nat) : GatherSendBatch :=
  around (.fromPoolArena arenaPtr (n * arenaPerItem) bufIndex (n * iovsPerItem + iovsPerItem))
    arenaPerItem iovsPerItem

def reset (b : GatherSendBatch) : GatherSendBatch :=
  { b with gather := b.gather.reset, tagsAtCqe := [], tagsAtNotif := [] }

def fits (b : GatherSendBatch) : Bool := b.gather.fits b.arenaPerItem b.iovsPerItem

def fileTag (b : GatherSendBatch) (item : Nat) : Staged → GatherSendBatch
  | .noRelease => b
  | .atCqe tag => { b with tagsAtCqe := b.tagsAtCqe ++ [⟨tag, item⟩] }
  | .atNotif tag => { b with tagsAtNotif := b.tagsAtNotif ++ [⟨tag, item⟩] }

end GatherSendBatch

/-- Cap on a zero-copy batch's gathered payload. -/
def zcGatherCap : Nat := 1024 * 1024

def capReached (cap : Option Nat) (g : GatherBatch) : Bool :=
  match cap with
  | some zcMin => zcMin ≤ g.avgPayload && zcGatherCap ≤ g.payloadBytes
  | none => false

/-- Where `stageBatch` ends: the batch, memory, everything staged so far, the item that did not fit
and the work that is left. -/
structure Staging (W : Type) where
  batch : GatherSendBatch
  memory : Memory
  staged : List Stage
  carry : Option W
  work : List W

def stageBatch {W : Type} (stage : Memory → W → Stage) (cap : Option Nat) :
    List W → GatherSendBatch → Memory → List Stage → Staging W
  | [], batch, memory, staged => ⟨batch, memory, staged, none, []⟩
  | w :: ws, batch, memory, staged =>
    if batch.fits then
      let st := stage memory w
      let x := st.apply memory batch.gather
      let batch := { batch with gather := x.2 }.fileTag staged.length st.release
      if capReached cap batch.gather then ⟨batch, x.1, staged ++ [st], none, ws⟩
      else stageBatch stage cap ws batch x.1 (staged ++ [st])
    else ⟨batch, memory, staged, some w, ws⟩

/-! ## The sender -/

structure StreamSender where
  batches : Fin 2 → GatherSendBatch
  inflight : List (Fin 2)
  zcBatches : Nat
  zcCopied : Nat
  zcFallbacks : Nat
  vecFixedOk : Bool
  zcMinAvg : Nat

namespace StreamSender

/-- `poolArena` is a registered region and its index; without one the arenas are on the heap, at
`heap`. -/
def new (sqsize arenaPerItem iovsPerItem : Nat) (poolArena : Option (Nat × Nat)) (heap : Fin 2 → Nat)
    (zcMinAvg : Nat) : StreamSender where
  batches := fun i =>
    match poolArena with
    | some (ptr, idx) =>
      .withPoolArena sqsize arenaPerItem iovsPerItem (ptr + i * (sqsize * arenaPerItem)) idx
    | none => .new sqsize arenaPerItem iovsPerItem (heap i)
  inflight := []
  zcBatches := 0
  zcCopied := 0
  zcFallbacks := 0
  vecFixedOk := poolArena.isSome
  zcMinAvg := zcMinAvg

def free (t : StreamSender) : Option (Fin 2) := (List.finRange 2).find? (· ∉ t.inflight)

def setBatch (t : StreamSender) (idx : Fin 2) (b : GatherSendBatch) : StreamSender :=
  { t with batches := Function.update t.batches idx b }

end StreamSender

/-- Poll every notification once and remove the ones that have arrived: `swap_remove` puts the last
one in the place of the one removed. `kept` are the ones already found pending; there is fuel for one
poll of each. -/
def pollNotifs (arrived : Nat → Bool) : Nat → List Nat → List Nat → List Nat
  | 0, kept, rest => kept ++ rest
  | _, kept, [] => kept
  | fuel + 1, kept, op :: rest =>
    if arrived op then
      match rest.getLast? with
      | some last => pollNotifs arrived fuel kept (last :: rest.dropLast)
      | none => kept
    else pollNotifs arrived fuel (kept ++ [op]) rest

/-! ## The send task -/

inductive Result where
  | ok
  | os (errno : Nat)
  | writeZero
  deriving DecidableEq, Repr

inductive After (W : Type) where
  | choose (first : W)
  | drain (r : Result)
  /-- Go on with `drain`'s last loop, over both batches. -/
  | last (r : Result)
  deriving DecidableEq, Repr

inductive Place (W : Type) where
  /-- Top of `send_batches`' loop, parked in `next_work_reaping` if there is nothing to do. -/
  | top
  | acquire (first : W)
  | choose (first : W)
  | reap (idx : Fin 2) (after : After W)
  /-- `reap` has popped the notification of `op` and awaits it. -/
  | await (idx : Fin 2) (op : Nat) (after : After W)
  | ship (idx : Fin 2) (useZc : Bool)
  /-- Zero-copy operation `op` is issued; `fixed` if it is the vectored fixed-buffer one. -/
  | sentZc (idx : Fin 2) (op : Nat) (fixed : Bool)
  | sentCopy (idx : Fin 2)
  | drain (r : Result)
  | returned (r : Result)
  | panicked
  deriving DecidableEq, Repr

/-- A tag given back, with the operations issued for its batch whose final notification had not
arrived when it was. -/
structure Release where
  tag : Nat
  item : Nat
  outstanding : List Nat
  deriving DecidableEq, Repr

/-- The send task with its send list, the memory it sends from and what has happened so far. -/
structure SendTask (W : Type) where
  sender : StreamSender
  sendZc : Bool
  work : List W
  closed : Bool
  carry : Option W
  place : Place W
  memory : Memory
  wire : List UInt8
  /-- The batch each zero-copy operation was issued for; operations are numbered in issue order. -/
  issued : List (Fin 2)
  /-- The final notifications that have arrived, and whether they reported a copy. -/
  notified : Nat → Option Bool
  staged : List Stage
  releases : List Release

namespace SendTask

variable {W : Type}

def start (sender : StreamSender) (sendZc : Bool) (memory : Memory) : SendTask W where
  sender := sender
  sendZc := sendZc
  work := []
  closed := false
  carry := none
  place := .top
  memory := memory
  wire := []
  issued := []
  notified := fun _ => none
  staged := []
  releases := []

def batch (s : SendTask W) (idx : Fin 2) : GatherSendBatch := s.sender.batches idx

def outstanding (s : SendTask W) (idx : Fin 2) : List Nat :=
  (List.range s.issued.length).filter fun op => s.issued[op]? = some idx && (s.notified op).isNone

def setBatch (s : SendTask W) (idx : Fin 2) (b : GatherSendBatch) : SendTask W :=
  { s with sender := s.sender.setBatch idx b }

def releaseTags (s : SendTask W) (idx : Fin 2) (tags : List Ticket) : SendTask W :=
  { s with releases := s.releases ++ tags.map fun t => ⟨t.tag, t.item, s.outstanding idx⟩ }

def recycle (s : SendTask W) (idx : Fin 2) : SendTask W :=
  (s.releaseTags idx (s.batch idx).tagsAtNotif).setBatch idx (s.batch idx).reset

def noteCopied (s : SendTask W) (ops : List Nat) : SendTask W :=
  { s with sender := { s.sender with
      zcCopied := s.sender.zcCopied + ops.countP fun op => s.notified op == some true } }

/-- Poll the notifications of the oldest batch in flight; when none remain it is recycled. -/
def pollFront (s : SendTask W) (front : Fin 2) (rest : List (Fin 2)) : SendTask W :=
  let pending := (s.batch front).pendingNotifs
  let left := pollNotifs (fun op => (s.notified op).isSome) pending.length [] pending
  let s := (s.noteCopied pending).setBatch front { s.batch front with pendingNotifs := left }
  if left = [] then ({ s with sender := { s.sender with inflight := rest } }).recycle front else s

def next (s : SendTask W) : Option (SendTask W) :=
  match s.carry, s.work with
  | some w, _ => some { s with carry := none, place := .acquire w }
  | none, w :: ws => some { s with work := ws, place := .acquire w }
  | none, [] =>
    if s.closed then some { s with place := .drain .ok }
    else
      match s.sender.inflight with
      | [] => none
      | front :: rest => some (s.pollFront front rest)

def acquire (s : SendTask W) (first : W) : SendTask W :=
  if s.sender.inflight.length = 2 then
    match s.sender.inflight with
    | idx :: rest =>
      { s with sender := { s.sender with inflight := rest }, place := .reap idx (.choose first) }
    | [] => { s with place := .choose first }
  else { s with place := .choose first }

def choose (stage : Memory → W → Stage) (s : SendTask W) (first : W) : SendTask W :=
  match s.sender.free with
  | none => { s with place := .panicked }
  | some idx =>
    let cap := if s.sendZc then some s.sender.zcMinAvg else none
    let r := stageBatch stage cap (first :: s.work) (s.batch idx) s.memory s.staged
    let useZc := s.sendZc && s.sender.zcMinAvg ≤ r.batch.gather.avgPayload
    { s.setBatch idx r.batch with
      memory := r.memory, staged := r.staged, carry := r.carry, work := r.work,
      place := .ship idx useZc }

/-- Where the task goes on when batch `idx` has been reaped. -/
def afterReap (idx : Fin 2) : After W → Place W
  | .choose first => .choose first
  | .drain r => .drain r
  | .last r => if idx = 0 then .reap 1 (.last r) else .returned r

/-- Pop the last notification to await it; with none left, recycle the batch. -/
def reap (s : SendTask W) (idx : Fin 2) (after : After W) : SendTask W :=
  match (s.batch idx).pendingNotifs.getLast? with
  | some op =>
    { s.setBatch idx { s.batch idx with pendingNotifs := (s.batch idx).pendingNotifs.dropLast } with
      place := .await idx op after }
  | none => { s.recycle idx with place := afterReap idx after }

def ship (s : SendTask W) (idx : Fin 2) (useZc : Bool) : SendTask W :=
  if useZc then
    { s with
      issued := s.issued ++ [idx]
      place := .sentZc idx s.issued.length
        ((s.batch idx).gather.bufIndex.isSome && s.sender.vecFixedOk) }
  else { s with place := .sentCopy idx }

/-- A batch has hit the socket: release what the send CQE allows and classify the batch. -/
def retire (s : SendTask W) (idx : Fin 2) : SendTask W :=
  let s := (s.releaseTags idx (s.batch idx).tagsAtCqe).setBatch idx { s.batch idx with tagsAtCqe := [] }
  if (s.batch idx).pendingNotifs = [] then s.recycle idx
  else { s with sender := { s.sender with
    zcBatches := s.sender.zcBatches + 1, inflight := s.sender.inflight ++ [idx] } }

def took (s : SendTask W) (idx : Fin 2) (n : Nat) : SendTask W :=
  { s.setBatch idx { s.batch idx with gather := ((s.batch idx).gather.advance n).1 } with
    wire := s.wire ++ (gathered s.memory (s.batch idx).gather.liveIov).take n }

def landed (s : SendTask W) (idx : Fin 2) (useZc : Bool) (n : Nat) : SendTask W :=
  if n = 0 then { s with place := .drain .writeZero }
  else if ((s.batch idx).gather.advance n).2 then { (s.took idx n).retire idx with place := .top }
  else { s.took idx n with place := .ship idx useZc }

/-- A kernel without vectored zero-copy sends rejects the operation with one of these. -/
def vecUnsupported (errno : Nat) : Bool := errno = 22 || errno = 14 || errno = 95

/-- The pinned-page budget is exhausted: `ENOMEM` or `ENOBUFS`. -/
def pinRefused (errno : Nat) : Bool := errno = 12 || errno = 105

def stashNotif (s : SendTask W) (idx : Fin 2) (op : Nat) : SendTask W :=
  s.setBatch idx { s.batch idx with pendingNotifs := (s.batch idx).pendingNotifs ++ [op] }

/-- The result of a zero-copy operation whose notification is stashed. -/
def zcResult (s : SendTask W) (idx : Fin 2) (fixed : Bool) : Except Nat Nat → SendTask W
  | .ok n => s.landed idx true n
  | .error errno =>
    if fixed && vecUnsupported errno then
      { s with sender := { s.sender with vecFixedOk := false }, place := .ship idx true }
    else if pinRefused errno then
      { s with
        sender := { s.sender with zcFallbacks := s.sender.zcFallbacks + 1 }, place := .ship idx false }
    else { s with place := .drain (.os errno) }

def copyResult (s : SendTask W) (idx : Fin 2) : Except Nat Nat → SendTask W
  | .ok n => s.landed idx false n
  | .error errno => { s with place := .drain (.os errno) }

def drain (s : SendTask W) (r : Result) : SendTask W :=
  match s.sender.inflight with
  | idx :: rest =>
    { s with sender := { s.sender with inflight := rest }, place := .reap idx (.drain r) }
  | [] => { s with place := .reap 0 (.last r) }

def run (stage : Memory → W → Stage) (s : SendTask W) : Option (SendTask W) :=
  match s.place with
  | .top => s.next
  | .acquire first => some (s.acquire first)
  | .choose first => some (s.choose stage first)
  | .reap idx after => some (s.reap idx after)
  | .await idx op after =>
    if (s.notified op).isSome then some { s.noteCopied [op] with place := .reap idx after } else none
  | .ship idx useZc => some (s.ship idx useZc)
  | .drain r => some (s.drain r)
  | .sentZc .. | .sentCopy .. | .returned .. | .panicked => none

end SendTask

inductive SendAction (W : Type) where
  | push (w : W)
  | close
  | store (addr : Nat) (byte : UInt8)
  | notify (op : Nat) (copied : Bool)
  | run
  | refuse (errno : Nat)
  | sent (res : Except Nat Nat)

def step {W : Type} (stage : Memory → W → Stage) (s : SendTask W) :
    SendAction W → Option (SendTask W)
  | .push w => some { s with work := s.work ++ [w] }
  | .close => some { s with closed := true }
  | .store addr byte => some { s with memory := Function.update s.memory addr byte }
  | .notify op copied =>
    if op < s.issued.length ∧ s.notified op = none then
      some { s with notified := Function.update s.notified op (some copied) }
    else none
  | .run => s.run stage
  | .refuse errno =>
    match s.place with
    | .ship .. => some { s with place := .drain (.os errno) }
    | _ => none
  | .sent res =>
    match s.place with
    | .sentZc idx op fixed => some ((s.stashNotif idx op).zcResult idx fixed res)
    | .sentCopy idx => some (s.copyResult idx res)
    | _ => none

end Ioutgt.Stream
