import Ioutgt.Lib.Tally
import Ioutgt.Tcp.Host

/-!
# Waiting for a free tag

The receive loop parks in `await_tag` when a capsule finds the freelist empty. A tag is released once
its response is sent; a tag whose payload is still to come needs the receive loop for that, and one
whose command is a parked event request needs an event. The connection is watched together with the
event requests that have parked: the slot task of an Asynchronous Event Request on an admin queue may
do so.
-/

namespace Ioutgt.Tcp

open Lib Ioutgt.Nvme

namespace Conn

def awaitsTag (c : Conn) : Bool :=
  match c.pc with
  | .awaitTag .. => true
  | _ => false

/-- The host's stream has come to a command capsule: the window completes its header. -/
def commandDue (c : Conn) : Bool :=
  match c.pc, c.phase with
  | .inner w, .header =>
    if c.link.bytesOf w = [] then false
    else
      match c.incoming w with
      | .ok (some { kind := .capsuleCmd _, .. }) => true
      | _ => false
  | _, _ => false

def exhausted (c : Conn) : Bool := c.link.queue.slots.freeTags.isEmpty

end Conn

structure Eventful where
  watched : Watched
  parked : Nat → Bool

inductive TagAction where
  | conn (a : Action)
  /-- The slot task of the event request `tag` finds no event and parks. -/
  | park (tag : Nat)

namespace Eventful

def conn (e : Eventful) : Conn := e.watched.conn

def start (c : Conn) : Eventful := { watched := .start c, parked := fun _ => false }

def nslots (e : Eventful) : Nat := e.conn.link.queue.slots.nslots

/-- `tag` is held by an event request of an admin queue that its slot task has picked up. -/
def isEventRequest (e : Eventful) (tag : Nat) : Bool :=
  decide (tag < e.nslots) && e.conn.link.queue.cfg.qid == 0 &&
    (e.conn.slot tag).state == .executing && (e.conn.slot tag).cmd.opcode == AdminOpcode.asyncEvent

def step (e : Eventful) : TagAction → Option Eventful
  | .conn a =>
    (e.watched.step a).map fun w =>
      -- an event answers its request
      { watched := w, parked := fun tag => e.parked tag && (w.conn.slot tag).state == .executing }
  | .park tag =>
    if e.isEventRequest tag = true then
      some { e with parked := Function.update e.parked tag true }
    else none

/-- The tag's release needs neither the receive loop nor an event: its command is ready, executing and
not parked for an event, or responding. -/
def moving (e : Eventful) (tag : Nat) : Bool :=
  match (e.conn.slot tag).state with
  | .ready => true
  | .executing => !e.parked tag
  | .responding => true
  | _ => false

def SomeMoving (e : Eventful) : Prop := ∃ tag < e.nslots, e.moving tag = true

instance (e : Eventful) : Decidable e.SomeMoving :=
  inferInstanceAs (Decidable (∃ tag < e.nslots, e.moving tag = true))

/-- Where the receive loop waits for a free tag, some tag is on its way to being released. -/
def WaitEnds (e : Eventful) : Prop :=
  e.conn.awaitsTag = true → e.conn.exhausted = true → e.SomeMoving

instance (e : Eventful) : Decidable e.WaitEnds := inferInstanceAs (Decidable (_ → _ → _))

/-- `tag` is held by a write whose data is still to come, or by a parked event request. -/
def holds (e : Eventful) (tag : Nat) : Bool :=
  (e.conn.slot tag).state == .receiving || e.parked tag

/-- The condition on the next step: solicited writes and parked event requests do not hold all tags
when a command capsule comes, nor when one more event request parks while the receive loop waits. -/
def LeavesTag (e : Eventful) : TagAction → Prop
  | .conn .round => e.conn.commandDue = true → tally e.nslots e.holds id < e.nslots
  | .park tag => e.isEventRequest tag = true → e.conn.awaitsTag = true →
      tally e.nslots (fun t => t == tag || e.holds t) id < e.nslots
  | _ => True

instance (e : Eventful) : ∀ a, Decidable (e.LeavesTag a)
  | .conn .round => inferInstanceAs (Decidable (_ → _))
  | .park _ => inferInstanceAs (Decidable (_ → _ → _))
  | .conn (.recv _) | .conn (.kernelFill _) | .conn .observe | .conn (.recvEnd _) | .conn .drained
  | .conn (.claim _) | .conn (.recvmsg _) | .conn (.awaitCommand _) | .conn (.touch ..)
  | .conn (.complete ..) | .conn .takeWork | .conn (.releaseTag _) => .isTrue trivial

end Eventful

end Ioutgt.Tcp
