import Ioutgt.Uring.SendBatch

/-!
# What a gather references

Pushing a chunk appends its bytes to what the entries reference, merged or not; advancing drops the
bytes that were sent.

* `gathered_pushRaw`, `gathered_advance`, `advance_done`: the two operations, by the bytes.
* `pushRaw_covers`: a pushed chunk adds no other addresses.
-/

namespace Ioutgt.Uring

open Lib

variable {m m' : Memory} {g : GatherBatch} {e : Iovec} {es : List Iovec} {a : Nat}

def Iovec.Covers (e : Iovec) (a : Nat) : Prop := e.base ≤ a ∧ a < e.base + e.len

instance (e : Iovec) (a : Nat) : Decidable (e.Covers a) := inferInstanceAs (Decidable (_ ∧ _))

@[simp] theorem gathered_nil (m : Memory) : gathered m [] = [] := rfl

@[simp] theorem gathered_cons (m : Memory) (e : Iovec) (es : List Iovec) :
    gathered m (e :: es) = m.load e.base e.len ++ gathered m es := by simp [gathered]

@[simp] theorem gathered_append (m : Memory) (es fs : List Iovec) :
    gathered m (es ++ fs) = gathered m es ++ gathered m fs := by simp [gathered]

theorem gathered_congr (h : ∀ e ∈ es, ∀ a, e.Covers a → m a = m' a) :
    gathered m es = gathered m' es := by
  induction es with
  | nil => rfl
  | cons e es ih =>
    rw [gathered_cons, gathered_cons, ih fun f hf => h f (by simp [hf])]
    rw [Memory.load_congr fun a ha hb => h e (by simp) a ⟨ha, hb⟩]

namespace GatherBatch

theorem pushRaw_cases (g : GatherBatch) (ptr len : Nat) :
    (len = 0 ∧ g.pushRaw ptr len = g) ∨
      (∃ init last, g.iovs = init ++ [last] ∧ last.base + last.len = ptr ∧
        g.pushRaw ptr len = { g with iovs := init ++ [{ last with len := last.len + len }] }) ∨
      g.pushRaw ptr len = { g with iovs := g.iovs ++ [⟨ptr, len⟩] } := by
  rw [pushRaw]
  split
  · rename_i hlen
    exact .inl ⟨hlen, rfl⟩
  · split
    · rename_i last hlast
      obtain ⟨init, hiovs⟩ := List.getLast?_eq_some_iff.1 hlast
      split
      · rename_i hend
        exact .inr (.inl ⟨init, last, hiovs, hend, by simp [hiovs]⟩)
      · exact .inr (.inr rfl)
    · exact .inr (.inr rfl)

theorem gathered_pushRaw (m : Memory) (g : GatherBatch) (ptr len : Nat) :
    gathered m (g.pushRaw ptr len).iovs = gathered m g.iovs ++ m.load ptr len := by
  rcases g.pushRaw_cases ptr len with ⟨rfl, heq⟩ | ⟨init, last, hiovs, rfl, heq⟩ | heq
  · simp [heq]
  · -- contiguous with the last entry
    simp [heq, hiovs, Memory.load_append]
  · simp [heq]

theorem pushRaw_covers {ptr len : Nat} (he : e ∈ (g.pushRaw ptr len).iovs) (ha : e.Covers a) :
    (∃ f ∈ g.iovs, f.Covers a) ∨ (ptr ≤ a ∧ a < ptr + len) := by
  rcases g.pushRaw_cases ptr len with ⟨-, heq⟩ | ⟨init, last, hiovs, rfl, heq⟩ | heq
  · exact .inl ⟨e, heq ▸ he, ha⟩
  · have he : e ∈ init ++ [{ last with len := last.len + len }] := by rwa [heq] at he
    rcases List.mem_append.1 he with he | he
    · exact .inl ⟨e, by simp [hiovs, he], ha⟩
    · obtain rfl := List.mem_singleton.1 he
      obtain ⟨hlo, hhi⟩ := ha
      simp only at hlo hhi
      by_cases hlast : a < last.base + last.len
      · exact .inl ⟨last, by simp [hiovs], hlo, hlast⟩
      · exact .inr ⟨by omega, by omega⟩
  · have he : e ∈ g.iovs ++ [⟨ptr, len⟩] := by rwa [heq] at he
    rcases List.mem_append.1 he with he | he
    · exact .inl ⟨e, he, ha⟩
    · obtain rfl := List.mem_singleton.1 he
      exact .inr ha

theorem pushRaw_frame (g : GatherBatch) (ptr len : Nat) :
    ((g.pushRaw ptr len).arenaPtr, (g.pushRaw ptr len).arenaLen, (g.pushRaw ptr len).arenaUsed,
      (g.pushRaw ptr len).iovCap, (g.pushRaw ptr len).live) =
        (g.arenaPtr, g.arenaLen, g.arenaUsed, g.iovCap, g.live) ∧
      (g.pushRaw ptr len).iovs.length ≤ g.iovs.length + 1 := by
  rcases g.pushRaw_cases ptr len with ⟨-, heq⟩ | ⟨init, last, hiovs, -, heq⟩ | heq
  · rw [heq]
    exact ⟨rfl, Nat.le_succ _⟩
  · simp [heq, hiovs]
  · simp [heq]

/-! ## Short sends -/

theorem gathered_advanceIovecs (m : Memory) : ∀ (es : List Iovec) (sent : Nat),
    gathered m ((advanceIovecs es sent).1.drop (advanceIovecs es sent).2.1) = (gathered m es).drop sent
  | [], sent => by simp [advanceIovecs]
  | e :: es, sent => by
    rw [advanceIovecs]
    split
    · rename_i hlt
      simp only [List.drop_zero, gathered_cons]
      rw [List.drop_append_of_le_length (by simp; omega), Memory.load_drop m e.base (Nat.le_of_lt hlt)]
    · have hnil : (m.load e.base e.len).drop sent = [] := List.drop_eq_nil_of_le (by simp; omega)
      simp only [List.drop_succ_cons, gathered_cons]
      rw [gathered_advanceIovecs m es, List.drop_append, Memory.load_length, hnil, List.nil_append]

theorem advanceIovecs_done : ∀ (es : List Iovec) (sent : Nat), (advanceIovecs es sent).2.2 = true →
    (advanceIovecs es sent).1.drop (advanceIovecs es sent).2.1 = []
  | [], _, _ => rfl
  | e :: es, sent, h => by
    rw [advanceIovecs] at h ⊢
    split at h
    · cases h
    · rename_i hlt
      rw [if_neg hlt]
      exact advanceIovecs_done es _ h

/-- The unsent entries after a send are those the advance leaves of the ones before. -/
theorem advance_liveIov (g : GatherBatch) (sent : Nat) (hlive : g.live ≤ g.iovs.length) :
    (g.advance sent).1.liveIov =
      (advanceIovecs g.liveIov sent).1.drop (advanceIovecs g.liveIov sent).2.1 := by
  simp only [advance, liveIov]
  rw [List.drop_append, List.length_take, Nat.min_eq_left hlive,
    List.drop_eq_nil_of_le (by rw [List.length_take]; omega), Nat.add_sub_cancel_left, List.nil_append]

/-- **A short send drops what it sent.** -/
theorem gathered_advance (m : Memory) (g : GatherBatch) (sent : Nat) (hlive : g.live ≤ g.iovs.length) :
    gathered m (g.advance sent).1.liveIov = (gathered m g.liveIov).drop sent := by
  rw [advance_liveIov g sent hlive, gathered_advanceIovecs]

theorem advance_done {g : GatherBatch} {sent : Nat} (hlive : g.live ≤ g.iovs.length)
    (h : (g.advance sent).2 = true) : (g.advance sent).1.liveIov = [] := by
  rw [advance_liveIov g sent hlive]
  exact advanceIovecs_done _ _ h

theorem advanceIovecs_length : ∀ (es : List Iovec) (sent : Nat),
    (advanceIovecs es sent).1.length = es.length ∧ (advanceIovecs es sent).2.1 ≤ es.length
  | [], _ => ⟨rfl, Nat.le_refl 0⟩
  | e :: es, sent => by
    obtain ⟨hlength, hpassed⟩ := advanceIovecs_length es (sent - e.len)
    rw [advanceIovecs]
    split
    · exact ⟨rfl, Nat.zero_le _⟩
    · exact ⟨congrArg (· + 1) hlength, Nat.succ_le_succ hpassed⟩

theorem advance_length (g : GatherBatch) (sent : Nat) :
    (g.advance sent).1.iovs.length = g.iovs.length := by
  simp only [advance, liveIov, List.length_append, advanceIovecs_length, List.length_take,
    List.length_drop]
  omega

theorem advance_live_le (g : GatherBatch) (sent : Nat) (hlive : g.live ≤ g.iovs.length) :
    (g.advance sent).1.live ≤ (g.advance sent).1.iovs.length := by
  rw [advance_length]
  have hpassed := (advanceIovecs_length g.liveIov sent).2
  simp only [liveIov, List.length_drop] at hpassed
  simp only [advance, liveIov]
  omega

end GatherBatch

end Ioutgt.Uring
