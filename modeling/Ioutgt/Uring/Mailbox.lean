import Mathlib.Logic.Function.Basic
import Ioutgt.Lib.Run

/-!
# The mailbox of a queue thread

Senders push onto a locked queue and then write 1 to an eventfd; the receiver pops, and when it finds
the queue empty reads the eventfd through its ring. A push and the write behind it are two steps, with
anything in between. The kernel completes a read of the eventfd once its counter is not zero and resets
it with that; a write blocks while the counter is at its limit.

* `Mailbox.step`: what senders, receiver and kernel can do next.
-/

namespace Ioutgt.Uring

inductive Receiver where
  | idle
  | check
  | empty
  | asleep
  | woken (ok : Bool)
  | panicked
  deriving DecidableEq, Repr

/-- Both halves; a message is kept with the sender it came from, which no code reads. -/
structure Mailbox (T : Type) where
  queue : List (Nat × T)
  doorbell : Nat
  /-- The senders between their push and their write. -/
  ringing : Nat → Bool
  receiver : Receiver
  readBuf : Bool
  pushed : List (Nat × T)
  received : List (Nat × T)

/-- The largest value an eventfd's counter takes. -/
def doorbellMax : Nat := 0xfffffffffffffffe

namespace Mailbox

variable {T : Type}

def new : Mailbox T where
  queue := []
  doorbell := 0
  ringing := fun _ => false
  receiver := .idle
  readBuf := true
  pushed := []
  received := []

def tryRecv (m : Mailbox T) (got none : Receiver) : Mailbox T :=
  match m.queue with
  | [] => { m with receiver := none }
  | v :: rest => { m with queue := rest, received := m.received ++ [v], receiver := got }

inductive Action (T : Type) where
  /-- The two halves of `send` by sender `k`. -/
  | push (k : Nat) (value : T)
  | ring (k : Nat)
  | tryRecv
  | recv
  | look
  /-- `read_at`; `submits` is whether the ring takes the operation. -/
  | arm (submits : Bool)
  | satisfy
  | fail
  | resume

def step (m : Mailbox T) : Action T → Option (Mailbox T)
  | .push k value =>
    if m.ringing k = false then
      some { m with
        queue := m.queue ++ [(k, value)]
        pushed := m.pushed ++ [(k, value)]
        ringing := Function.update m.ringing k true }
    else none
  | .ring k =>
    if m.ringing k = true ∧ m.doorbell < doorbellMax then
      some { m with doorbell := m.doorbell + 1, ringing := Function.update m.ringing k false }
    else none
  | .tryRecv => if m.receiver = .idle then some (m.tryRecv .idle .idle) else none
  | .recv => if m.receiver = .idle then some { m with receiver := .check } else none
  | .look => if m.receiver = .check then some (m.tryRecv .idle .empty) else none
  | .arm submits =>
    if m.receiver = .empty then
      some { m with
        receiver := if m.readBuf then (if submits then .asleep else .idle) else .panicked
        readBuf := false }
    else none
  | .satisfy =>
    if m.receiver = .asleep ∧ m.doorbell ≠ 0 then
      some { m with doorbell := 0, receiver := .woken true }
    else none
  | .fail => if m.receiver = .asleep then some { m with receiver := .woken false } else none
  | .resume =>
    match m.receiver with
    | .woken ok => some { m with receiver := if ok then .check else .idle, readBuf := true }
    | _ => none

end Mailbox

end Ioutgt.Uring
