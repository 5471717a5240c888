import Ioutgt.Rdma.Target

/-!
# In which order commands are served

A ledger beside the RDMA queue: capsules are numbered as their RECV completions are handled, which is
the order they arrived in, and each time a capsule is given a tag, or a host-data write its pool
pages, the ledger notes which capsules were left waiting for the same thing.
-/

namespace Ioutgt.Rdma

open Lib Ioutgt.Nvme Ioutgt.Tcp

variable {B : Type}

/-- The bytes of pool pages a routed command asks for, if it asks for any. -/
def asks (role : Role B) (sqe : Sqe) (held : Option Nat) : Option Nat :=
  if hostDataIn role sqe.opcode = false then none
  else
    match held with
    | some _ => (inlineSpan sqe).toOption.map (·.2)
    | none => if stagedLen sqe = 0 then none else some (stagedLen sqe)

/-- The command in buffer `idx`, with the buffer it keeps. -/
def RdmaQueue.capsule (role : Role B) (q : RdmaQueue) (idx : Nat) : Sqe × Option Nat :=
  let sqe := Sqe.readFromBytes (slice (q.recvSlice idx) 0 sqeLen)
  (sqe, if heldInline role sqe then some idx else none)

/-- A tag or pool pages given to a capsule while others waited for one. -/
structure Grant where
  capsule : Nat
  waiting : List Nat
  deriving DecidableEq, Repr

/-- None of those left waiting came earlier. -/
def Grant.InOrder (g : Grant) : Prop := ∀ n ∈ g.waiting, g.capsule < n

structure Served where
  q : RdmaQueue
  arrived : Nat
  /-- The numbers of the commands on `parked` and on `pool_wait`. -/
  parkedNo : List Nat
  waitNo : List Nat
  tagGrants : List Grant
  pageGrants : List Grant

namespace Served

def bootstrapped (cfg : QueueCfg) (connect : List UInt8) : Served where
  q := RdmaQueue.bootstrapped cfg connect
  arrived := 0
  parkedNo := []
  waitNo := []
  tagGrants := []
  pageGrants := []

def giveTag (r : Served) (n : Nat) : Served :=
  { r with tagGrants := r.tagGrants ++ [⟨n, r.parkedNo⟩] }

/-- Capsule `n` is routed: what it asks for is there or not. -/
def routed (r : Served) (pool : Pool) (n : Nat) : Option Nat → Served
  | none => r
  | some len =>
    if (pool.alloc len).isSome then { r with pageGrants := r.pageGrants ++ [⟨n, r.waitNo⟩] }
    else { r with waitNo := r.waitNo ++ [n] }

def note (role : Role B) (r : Served) : Action → Served
  | .reap pool =>
    match r.q.cq with
    | .recv idx :: _ =>
      let r' := { r with arrived := r.arrived + 1 }
      if r.q.slots.freeTags = [] then { r' with parkedNo := r.parkedNo ++ [r.arrived] }
      else
        let c := r.q.capsule role idx
        (r'.giveTag r.arrived).routed pool r.arrived (asks role c.1 c.2)
    | _ => r
  | .drainWait _ =>
    match r.waitNo with
    | n :: rest => { r with waitNo := rest, pageGrants := r.pageGrants ++ [⟨n, rest⟩] }
    | [] => r
  | .drainParked pool =>
    match r.q.parked, r.parkedNo with
    | (sqe, held) :: _, n :: rest =>
      ({ r with parkedNo := rest }.giveTag n).routed pool n (asks role sqe held)
    | _, _ => r
  | _ => r

def step (role : Role B) (r : Served) (a : Action) : Option Served :=
  (Rdma.step role r.q a).map fun q => { r.note role a with q }

/-- **Oldest first**: nothing was given to a capsule while an earlier one waited for it. -/
structure OldestFirst (r : Served) : Prop where
  tags : ∀ g ∈ r.tagGrants, g.InOrder
  pages : ∀ g ∈ r.pageGrants, g.InOrder

end Served

/-! ## What a poll must find -/

def Wc.buf : Wc → Option Nat
  | .recv idx => some idx
  | _ => none

def Wc.ofResponse : Wc → Bool
  | .write _ | .send _ => true
  | _ => false

namespace RdmaQueue

/-- The tags of a poll are given in turn: there is one for every capsule in the batch and nobody is
parked, or no capsule comes behind the completion of a response. -/
def TagsInTurn (q : RdmaQueue) : Prop :=
  q.parked = [] ∧ (q.cq.filterMap Wc.buf).length ≤ q.slots.freeTags.length ∨
    q.cq.Pairwise fun a b => a.ofResponse = true → b.buf = none

/-- What a poll may route: the capsules in the batch and the parked commands. -/
def routable (role : Role B) (q : RdmaQueue) : List (Sqe × Option Nat) :=
  (q.cq.filterMap Wc.buf).map (q.capsule role) ++ q.parked

def requests (role : Role B) (q : RdmaQueue) : List Nat :=
  (q.routable role).filterMap fun c => asks role c.1 c.2

end RdmaQueue

/-- The pages of a poll are given in turn: the pool refuses all of the requests, or no write waits for
pages and the pool refuses none of the requests, or there is no more than one. -/
def PagesInTurn (pools : List Pool) (requests : List Nat) (wait : List (Nat × Sqe × Option Nat)) :
    Prop :=
  (∀ pool ∈ pools, ∀ len ∈ requests, pool.alloc len = none) ∨
    wait = [] ∧ ((∀ pool ∈ pools, ∀ len ∈ requests, (pool.alloc len).isSome) ∨ requests.length ≤ 1)

def Poll.routing (p : Poll) : List Pool := p.reaps ++ p.parks

def RdmaQueue.InTurn (role : Role B) (q : RdmaQueue) : Event → Prop
  | .poll p => q.TagsInTurn ∧ PagesInTurn p.routing (q.requests role) q.poolWait
  | .other _ => True

instance (q : RdmaQueue) : Decidable q.TagsInTurn := inferInstanceAs (Decidable (_ ∨ _))

instance (pools : List Pool) (requests : List Nat) (wait : List (Nat × Sqe × Option Nat)) :
    Decidable (PagesInTurn pools requests wait) :=
  inferInstanceAs (Decidable (_ ∨ _))

instance (role : Role B) (q : RdmaQueue) : ∀ e : Event, Decidable (q.InTurn role e)
  | .poll _ => inferInstanceAs (Decidable (_ ∧ _))
  | .other _ => .isTrue trivial

end Ioutgt.Rdma
