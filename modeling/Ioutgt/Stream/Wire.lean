import Ioutgt.Stream.Sender
import Ioutgt.Uring.Proof.SendBatch

/-!
# The sender's stream

What the send task is for, by the bytes: everything that is pushed goes on the wire, in push order,
each item as its encoding. A ledger beside the task collects the encodings of what was pushed, as
memory was then; `Undisturbed` says what the rest of the system leaves alone meanwhile.
-/

namespace Ioutgt.Stream

open Lib Ioutgt.Uring

variable {W : Type}

def After.failed : After W → Bool
  | .choose _ => false
  | .drain r | .last r => r ≠ .ok

def Place.failed : Place W → Bool
  | .reap _ after | .await _ _ after => after.failed
  | .drain r | .returned r => r ≠ .ok
  | .panicked => true
  | _ => false

def Place.item : Place W → List W
  | .acquire w | .choose w | .reap _ (.choose w) | .await _ _ (.choose w) => [w]
  | _ => []

def Place.shipping : Place W → Option (Fin 2)
  | .ship idx _ | .sentZc idx _ _ | .sentCopy idx => some idx
  | _ => none

namespace SendTask

def waiting (s : SendTask W) : List W := s.place.item ++ s.carry.toList ++ s.work

def unsent (s : SendTask W) : List Iovec :=
  match s.place.shipping with
  | some idx => (s.batch idx).gather.liveIov
  | none => []

end SendTask

/-- The task, and the encodings of everything pushed. -/
structure Ledger (W : Type) where
  task : SendTask W
  queued : List UInt8

def Ledger.step (stage : Memory → W → Stage) (encode : Memory → W → List UInt8) (l : Ledger W)
    (a : SendAction W) : Option (Ledger W) :=
  (Stream.step stage l.task a).map fun t =>
    { task := t
      queued := match a with
        | .push w => l.queued ++ encode l.task.memory w
        | _ => l.queued }

/-- No address of the entry is in the batch's arena. -/
def OutsideArena (b : GatherSendBatch) (e : Iovec) : Prop :=
  e.base + e.len ≤ b.gather.arenaPtr ∨ b.gather.arenaPtr + b.gather.arenaLen ≤ e.base

instance (b : GatherSendBatch) (e : Iovec) : Decidable (OutsideArena b e) :=
  inferInstanceAs (Decidable (_ ∨ _))

/-- The slots are not in the arenas, and the others write neither to the slot of an item that is queued
nor to what is still to be sent. -/
def Undisturbed (slot : W → List Iovec) (s : SendTask W) : SendAction W → Prop
  | .push w => ∀ e ∈ slot w, ∀ i, OutsideArena (s.batch i) e
  | .store addr _ =>
    (∀ w ∈ s.waiting, ∀ e ∈ slot w, ¬ e.Covers addr) ∧ ∀ e ∈ s.unsent, ¬ e.Covers addr
  | _ => True

instance (slot : W → List Iovec) (s : SendTask W) : ∀ a, Decidable (Undisturbed slot s a)
  | .push w => inferInstanceAs (Decidable (∀ e ∈ slot w, ∀ i, OutsideArena (s.batch i) e))
  | .store addr _ => inferInstanceAs (Decidable ((∀ w ∈ s.waiting, ∀ e ∈ slot w, ¬ e.Covers addr) ∧
      ∀ e ∈ s.unsent, ¬ e.Covers addr))
  | .close | .notify .. | .run | .refuse _ | .sent _ => .isTrue trivial

end Ioutgt.Stream
