import Ioutgt.Uring.Mailbox

/-!
# No message is lost in a mailbox, and no wake-up

The receiver arms its read after it found the queue empty. Whatever was pushed since then has rung the
doorbell or is about to.

* `Inv`, `Inv.step`: what every step keeps;
* `delivered_once_in_order`: what holds in every run.
-/

namespace Ioutgt.Uring.Mailbox

open Lib

variable {T : Type} {m m' : Mailbox T} {a : Action T}

structure Inv (m : Mailbox T) : Prop where
  delivered : m.received ++ m.queue = m.pushed
  announced : m.receiver = .empty ∨ m.receiver = .asleep → m.queue ≠ [] →
    m.doorbell ≠ 0 ∨ ∃ k, m.ringing k = true

theorem Inv.tryRecv {got none : Receiver} (h : Inv m) (hgot : got = .idle) :
    Inv (m.tryRecv got none) := by
  have hdelivered := h.delivered
  unfold Mailbox.tryRecv
  split
  · rename_i hempty
    exact ⟨hdelivered, fun _ hne => absurd hempty hne⟩
  · rename_i hcons
    rw [hcons] at hdelivered
    exact ⟨by simpa using hdelivered, fun hr => by simp [hgot] at hr⟩

theorem Inv.goto {r : Receiver} {readBuf : Bool} (h : Inv m)
    (hr : r = .empty ∨ r = .asleep → m.receiver = .empty ∨ m.receiver = .asleep) :
    Inv { m with receiver := r, readBuf := readBuf } :=
  ⟨h.delivered, fun hr' => h.announced (hr hr')⟩

theorem Inv.step (h : Inv m) (hs : m.step a = some m') : Inv m' := by
  cases a with
  | push k value =>
    obtain ⟨-, rfl⟩ := of_guard hs
    refine ⟨?_, fun _ _ => .inr ⟨k, by simp⟩⟩
    simp only [← h.delivered, List.append_assoc]
  | ring k =>
    obtain ⟨-, rfl⟩ := of_guard hs
    exact ⟨h.delivered, fun _ _ => .inl (Nat.succ_ne_zero _)⟩
  | tryRecv =>
    obtain ⟨-, rfl⟩ := of_guard hs
    exact h.tryRecv rfl
  | recv =>
    obtain ⟨-, rfl⟩ := of_guard hs
    exact h.goto (by simp)
  | look =>
    obtain ⟨-, rfl⟩ := of_guard hs
    exact h.tryRecv rfl
  | arm submits =>
    obtain ⟨hempty, rfl⟩ := of_guard hs
    exact h.goto fun _ => .inl hempty
  | satisfy =>
    obtain ⟨-, rfl⟩ := of_guard hs
    exact ⟨h.delivered, by simp⟩
  | fail =>
    obtain ⟨-, rfl⟩ := of_guard hs
    exact h.goto (by simp)
  | resume =>
    cases hr : m.receiver with
    | woken ok =>
      obtain rfl : _ = m' := by simpa [Mailbox.step, hr] using hs
      exact h.goto (by cases ok <;> simp)
    | _ => simp [Mailbox.step, hr] at hs

/-- **Every message is delivered once, in the order of the pushes**, so each sender's in the order it sent
them; and a receiver that sleeps on a silent doorbell, with no sender about to ring it, has an empty
queue. -/
theorem delivered_once_in_order {as : List (Action T)} (hrun : runFrom step new as = some m) :
    m.received ++ m.queue = m.pushed ∧
      (∀ k, m.received.filter (·.1 = k) <+: m.pushed.filter (·.1 = k)) ∧
      (m.receiver = .asleep → m.doorbell = 0 → (∀ k, m.ringing k = false) → m.queue = []) := by
  have h : Inv m := @runFrom_invariant _ _ step Inv (fun h hs => h.step hs) as _ _
    ⟨rfl, fun _ hne => absurd rfl hne⟩ hrun
  refine ⟨h.delivered, fun k => ?_, fun hasleep hsilent hquiet => ?_⟩
  · rw [← h.delivered, List.filter_append]
    exact List.prefix_append ..
  · by_contra hne
    rcases h.announced (.inr hasleep) hne with hrung | ⟨k, hk⟩
    · exact hrung hsilent
    · exact Bool.false_ne_true ((hquiet k).symm.trans hk)

theorem delivered_once_in_order_two : ∃ m : Mailbox Nat, runFrom step new
    [.recv, .look, .push 0 7, .push 1 8, .arm true, .ring 1, .satisfy, .resume, .look, .ring 0,
      .recv, .look, .recv, .look, .arm true, .satisfy, .resume, .look, .arm true] = some m ∧
      m.received = [(0, 7), (1, 8)] ∧ m.receiver = .asleep ∧ m.queue = [] := by
  have hrun : ∃ m : Mailbox Nat, runFrom step new
      [.recv, .look, .push 0 7, .push 1 8, .arm true, .ring 1, .satisfy, .resume, .look, .ring 0,
        .recv, .look, .recv, .look, .arm true, .satisfy, .resume, .look, .arm true] = some m ∧
        m.received = [(0, 7), (1, 8)] ∧ m.receiver = .asleep ∧ m.doorbell = 0 ∧
        m.ringing = Function.update (Function.update (Function.update (Function.update (fun _ => false) 0
          true) 1 true) 1 false) 0 false := ⟨_, rfl, rfl, rfl, rfl, rfl⟩
  obtain ⟨m, hm, hreceived, hasleep, hsilent, hringing⟩ := hrun
  refine ⟨m, hm, hreceived, hasleep, (delivered_once_in_order hm).2.2 hasleep hsilent fun k => ?_⟩
  rw [hringing]
  by_cases h0 : k = 0
  · simp [h0]
  · by_cases h1 : k = 1 <;> simp [h0, h1]

end Ioutgt.Uring.Mailbox
