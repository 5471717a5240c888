import Ioutgt.Core.SlotQ
import Ioutgt.Lib.Run

/-!
# Slots, send list and their doorbells

The slot array and the send list with the wakers they hold: one for each slot's task, one for the
receive path, one for the send path, each in a cell that is overwritten when its task parks and emptied
when the task is woken. Then the tasks of a queue, of either transport, over them. The receive path
holds the tags it has claimed and not passed on, a slot task the tag it is executing, the send path the
tags of the responses it has taken; each acts on the tags it holds. A task may be polled at any time.
-/

namespace Ioutgt.Core

open Lib

inductive TaskId where
  | slot (tag : Nat)
  | recv
  | send
  deriving DecidableEq, Repr

/-! ## The slot array with its doorbells -/

structure BellArray (C : Type) where
  array : SlotArray C
  wakers : Nat → Option TaskId
  tagWaiter : Option TaskId

namespace BellArray

variable {C ε : Type}

def new (nslots : Nat) (init : C) : BellArray C where
  array := .new nslots init
  wakers := fun _ => none
  tagWaiter := none

def setData (b : BellArray C) (tag : Nat) (data : SlotData) : Checked ε (BellArray C) := do
  let s ← b.array.slot tag
  return { b with array := b.array.put tag { s with data } }

def claimTag (b : BellArray C) : Checked ε (Option (Nat × BellArray C)) := do
  match ← b.array.claimTag with
  | some (tag, array) => return some (tag, { b with array })
  | none => return none

def awaitTag (b : BellArray C) (task : TaskId) : Checked ε (Option Nat × BellArray C) := do
  match ← b.claimTag with
  | some (tag, b) => return (some tag, b)
  | none => return (none, { b with tagWaiter := some task })

/-- Deliver a fully received command to the slot task; with the waker that is rung. -/
def submit (b : BellArray C) (tag : Nat) (cmd : C) : Checked ε (Option TaskId × BellArray C) := do
  let array ← b.array.submit tag cmd
  return (b.wakers tag, { b with array, wakers := Function.update b.wakers tag none })

def awaitCommand (b : BellArray C) (tag : Nat) (task : TaskId) :
    Checked ε (Option C × BellArray C) := do
  match ← b.array.awaitCommand tag with
  | some (cmd, array) => return (some cmd, { b with array })
  | none => return (none, { b with wakers := Function.update b.wakers tag (some task) })

def beginRespond (b : BellArray C) (tag : Nat) : Checked ε (BellArray C) := do
  let array ← b.array.beginRespond tag
  return { b with array }

def respondReceiving (b : BellArray C) (tag : Nat) : Checked ε (BellArray C) := do
  let array ← b.array.respondReceiving tag
  return { b with array }

/-- Return a tag to the freelist; with the waker that is rung. -/
def releaseTag (b : BellArray C) (tag : Nat) : Checked ε (Option TaskId × BellArray C) := do
  let (_, array) ← b.array.releaseTag tag
  return (b.tagWaiter, { b with array, tagWaiter := none })

end BellArray

/-! ## The send list -/

structure SendList (W : Type) where
  work : List W
  waker : Option TaskId
  closed : Bool

namespace SendList

variable {W : Type}

def new : SendList W := ⟨[], none, false⟩

def push (l : SendList W) (w : W) : Option TaskId × SendList W :=
  (l.waker, { l with work := l.work ++ [w], waker := none })

def tryNext (l : SendList W) : Option (W × SendList W) :=
  match l.work with
  | w :: work => some (w, { l with work })
  | [] => none

inductive Next (W : Type) where
  | work (w : W)
  | ended
  | pending

/-- Pending work first, the end once closed, else `task` is parked. -/
def pollNext (l : SendList W) (task : TaskId) : Next W × SendList W :=
  match l.work with
  | w :: work => (.work w, { l with work })
  | [] => if l.closed then (.ended, l) else (.pending, { l with waker := some task })

def close (l : SendList W) : Option TaskId × SendList W :=
  (l.waker, { l with closed := true, waker := none })

end SendList

/-! ## The tasks -/

inductive SendItem where
  | response (tag : Nat)
  | r2t (tag : Nat)
  deriving DecidableEq, Repr

def SendItem.owes : SendItem → Option Nat
  | .response tag => some tag
  | .r2t _ => none

/-- A task between polls. -/
inductive Rest where
  | running
  /-- Its last poll found nothing, and nobody has woken it since. -/
  | waiting
  | woken
  deriving DecidableEq, Repr

structure SlotTasks (C : Type) where
  slots : BellArray C
  list : SendList SendItem
  /-- Tags the receive path has claimed and not passed on. -/
  claimed : List Nat
  busy : List Nat
  /-- Tags of the responses the send path has taken. -/
  held : List Nat
  rest : TaskId → Rest

inductive SlotAction (C : Type) where
  | claim
  | awaitTag
  | setData (tag : Nat) (data : SlotData)
  | solicit (tag : Nat)
  | submit (tag : Nat) (cmd : C)
  | fail (tag : Nat)
  | awaitCommand (tag : Nat)
  | complete (tag : Nat)
  | tryNext
  | pollNext
  | close
  | release (tag : Nat)

namespace SlotTasks

variable {C : Type}

def start (nslots : Nat) (init : C) : SlotTasks C where
  slots := .new nslots init
  list := .new
  claimed := []
  busy := []
  held := []
  rest := fun _ => .running

def Enabled (s : SlotTasks C) : SlotAction C → Prop
  | .setData tag _ => tag ∈ s.claimed ∨ tag ∈ s.busy
  | .solicit tag | .submit tag _ | .fail tag => tag ∈ s.claimed
  | .awaitCommand tag => tag < s.slots.array.nslots ∧ tag ∉ s.busy
  | .complete tag => tag ∈ s.busy
  | .release tag => tag ∈ s.held
  | .claim | .awaitTag | .tryNext | .pollNext | .close => True

instance (s : SlotTasks C) : ∀ a, Decidable (s.Enabled a)
  | .setData .. => inferInstanceAs (Decidable (_ ∨ _))
  | .solicit _ | .submit .. | .fail _ | .complete _ | .release _ =>
    inferInstanceAs (Decidable (_ ∈ _))
  | .awaitCommand _ => inferInstanceAs (Decidable (_ ∧ _))
  | .claim | .awaitTag | .tryNext | .pollNext | .close => inferInstanceAs (Decidable True)

def setRest (s : SlotTasks C) (task : TaskId) (r : Rest) : SlotTasks C :=
  { s with rest := Function.update s.rest task r }

def wake (s : SlotTasks C) : Option TaskId → SlotTasks C
  | none => s
  | some task => if s.rest task = .waiting then s.setRest task .woken else s

def push (s : SlotTasks C) (item : SendItem) : SlotTasks C :=
  let (woken, list) := s.list.push item
  { s with list }.wake woken

def hold (s : SlotTasks C) (item : SendItem) : SlotTasks C :=
  { s with held := s.held ++ item.owes.toList }

def perform (s : SlotTasks C) : SlotAction C → Checked Empty (SlotTasks C)
  | .claim => do
    match ← s.slots.claimTag with
    | some (tag, slots) => return { s with slots, claimed := tag :: s.claimed }
    | none => return s
  | .awaitTag => do
    match ← s.slots.awaitTag .recv with
    | (some tag, slots) =>
      return { s with slots, claimed := tag :: s.claimed }.setRest .recv .running
    | (none, slots) => return { s with slots }.setRest .recv .waiting
  | .setData tag data => do
    let slots ← s.slots.setData tag data
    return { s with slots }
  | .solicit tag => return s.push (.r2t tag)
  | .submit tag cmd => do
    let (woken, slots) ← s.slots.submit tag cmd
    return { s with slots, claimed := s.claimed.filter (· ≠ tag) }.wake woken
  | .fail tag => do
    let slots ← s.slots.respondReceiving tag
    return { s with slots, claimed := s.claimed.filter (· ≠ tag) }.push (.response tag)
  | .awaitCommand tag => do
    match ← s.slots.awaitCommand tag (.slot tag) with
    | (some _, slots) => return { s with slots, busy := tag :: s.busy }.setRest (.slot tag) .running
    | (none, slots) => return { s with slots }.setRest (.slot tag) .waiting
  | .complete tag => do
    let slots ← s.slots.beginRespond tag
    return { s with slots, busy := s.busy.filter (· ≠ tag) }.push (.response tag)
  | .tryNext =>
    match s.list.tryNext with
    | some (item, list) => return { s with list }.hold item
    | none => return s
  | .pollNext =>
    match s.list.pollNext .send with
    | (.work item, list) => return ({ s with list }.hold item).setRest .send .running
    | (.ended, list) => return { s with list }.setRest .send .running
    | (.pending, list) => return { s with list }.setRest .send .waiting
  | .close =>
    let (woken, list) := s.list.close
    return { s with list }.wake woken
  | .release tag => do
    let (woken, slots) ← s.slots.releaseTag tag
    return { s with slots, held := s.held.filter (· ≠ tag) }.wake woken

def step (s : SlotTasks C) (a : SlotAction C) : Option (SlotTasks C) :=
  if s.Enabled a then (s.perform a).toOption else none

end SlotTasks

end Ioutgt.Core
