import Mathlib.Logic.Function.Basic
import Ioutgt.Lib.Checked
import Ioutgt.Lib.Scatter

/-!
# The command-slot engine

Preallocated slots, the tag freelist and the executing counter. The wire transfer tag is the slot
index. A slot's data buffer is held by value: the segments of a lease with their contents, or a
region of the connection's receive ring. Doorbells are left out: any task whose condition holds
may run.
-/

namespace Ioutgt.Core

open Lib

inductive SlotState where
  | free
  | receiving
  | ready
  | executing
  | responding
  deriving DecidableEq, Repr

inductive SlotData where
  | empty
  /-- A pool lease or a private heap buffer: its segments' contents. -/
  | leased (segs : List (List UInt8))
  | ring (bid off len : Nat)
  deriving DecidableEq

namespace SlotData

def maxSegs : Nat := 32

/-- What the pool, or the private heap buffer that stands in when the pool is exhausted, may hand
out for `len` bytes. Contents are left over from before. -/
def LeaseOk (len : Nat) (segs : List (List UInt8)) : Prop :=
  segs.length ≤ maxSegs ∧ len ≤ segs.flatten.length

instance (len : Nat) (segs : List (List UInt8)) : Decidable (LeaseOk len segs) :=
  inferInstanceAs (Decidable (_ ∧ _))

/-- Copy `src` into the buffer at logical offset `off`, crossing segment boundaries as needed. A
copy into ring memory is counted as a fault: the kernel owns what follows a retained region. -/
def writeAt {ε : Type} (d : SlotData) (off : Nat) (src : List UInt8) : Checked ε SlotData :=
  match d with
  | .leased segs => do
    let r := writeSegs segs off src
    Checked.require (r.2 = []) .assertFailed
    return .leased r.1
  | .empty => do
    Checked.require (src = []) .assertFailed
    return .empty
  | .ring .. => .abort .unreachable

/-- The sub-slices of the logical range `[off, off + len)`, in the order `f` is called with them. -/
def forEachSeg (segs : List (List UInt8)) (off len : Nat) : List (List UInt8) :=
  (subSegs 0 segs off len).map fun p => ((segs[p.seg]?.getD []).drop p.off).take p.len

end SlotData

structure Slot (C : Type) where
  state : SlotState
  cmd : C
  data : SlotData
  dataLen : Nat
  recvOffset : Nat

def Slot.new {C : Type} (init : C) : Slot C :=
  { state := .free, cmd := init, data := .empty, dataLen := 0, recvOffset := 0 }

structure SlotArray (C : Type) where
  nslots : Nat
  slots : Nat → Slot C
  /-- Top of the stack first. -/
  freeTags : List Nat
  executing : Nat

namespace SlotArray

variable {C ε : Type}

def new (nslots : Nat) (init : C) : SlotArray C where
  nslots := nslots
  slots := fun _ => Slot.new init
  freeTags := List.range nslots
  executing := 0

def slot (a : SlotArray C) (tag : Nat) : Checked ε (Slot C) :=
  if tag < a.nslots then .ok (a.slots tag) else .abort .indexOutOfBounds

def put (a : SlotArray C) (tag : Nat) (s : Slot C) : SlotArray C :=
  { a with slots := Function.update a.slots tag s }

def claimTag (a : SlotArray C) : Checked ε (Option (Nat × SlotArray C)) :=
  match a.freeTags with
  | [] => .ok none
  | tag :: rest => do
    let s ← a.slot tag
    Checked.require (s.state = .free) .assertFailed
    let a := { a with freeTags := rest }
    return some (tag, a.put tag { s with state := .receiving, dataLen := 0, recvOffset := 0 })

def submit (a : SlotArray C) (tag : Nat) (cmd : C) : Checked ε (SlotArray C) := do
  let s ← a.slot tag
  Checked.require (s.state = .receiving) .assertFailed
  return a.put tag { s with cmd, state := .ready }

def awaitCommand (a : SlotArray C) (tag : Nat) : Checked ε (Option (C × SlotArray C)) := do
  let s ← a.slot tag
  if s.state = .ready then
    let a := { a with executing := a.executing + 1 }
    return some (s.cmd, a.put tag { s with state := .executing })
  else return none

def beginRespond (a : SlotArray C) (tag : Nat) : Checked ε (SlotArray C) := do
  let s ← a.slot tag
  Checked.require (s.state = .executing) .assertFailed
  let executing ← Checked.sub a.executing 1
  return { a with executing }.put tag { s with state := .responding }

def respondReceiving (a : SlotArray C) (tag : Nat) : Checked ε (SlotArray C) := do
  let s ← a.slot tag
  Checked.require (s.state = .receiving) .assertFailed
  return a.put tag { s with state := .responding }

/-- Return a tag to the freelist once its response is fully sent; with the data buffer that is
given up. -/
def releaseTag (a : SlotArray C) (tag : Nat) : Checked ε (SlotData × SlotArray C) := do
  let s ← a.slot tag
  Checked.require (s.state = .responding) .assertFailed
  let a := { a with freeTags := tag :: a.freeTags }
  return (s.data, a.put tag { s with data := .empty, state := .free })

end SlotArray

end Ioutgt.Core
