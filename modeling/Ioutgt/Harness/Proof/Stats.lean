import Mathlib.Tactic.Abel
import Ioutgt.Harness.Stats

/-!
# No event is lost or counted twice

Every step moves the total of the live and the retired counters by what it counts, and a clear leaves the
whole total to the reply before it (`total_step`). Along a run the total is what was counted since the
last clear (`counted_run`).
-/

namespace Ioutgt.Harness

open Lib

namespace ThreadStats

variable {T : Type} {k : Counter}

theorem foldl_absorb (es : List (Entry T)) : ∀ r : QueueStatsSnapshot,
    (es.foldl (fun r e => r.absorb e.stats.snapshot) r).count k
      = (es.map (·.stats.cell k)).sum + r.count k := by
  induction es with
  | nil => simp
  | cons e es ih =>
    intro r
    rw [List.foldl_cons, ih, List.map_cons, List.sum_cons]
    change _ + (r.count k + e.stats.cell k) = _
    abel

theorem sum_map_set (f : Entry T → UInt64) (e' : Entry T) {e : Entry T} :
    ∀ {es : List (Entry T)} {i : Nat}, es[i]? = some e →
      ((es.set i e').map f).sum + f e = (es.map f).sum + f e'
  | e₀ :: es, 0, h => by
    obtain rfl : e₀ = e := by simpa using h
    simp only [List.set_cons_zero, List.map_cons, List.sum_cons]
    abel
  | e₀ :: es, i + 1, h => by
    have ih := sum_map_set f e' (i := i) (by simpa using h : es[i]? = some e)
    simp only [List.set_cons_succ, List.map_cons, List.sum_cons, add_assoc, ih]

theorem eventsCounted_snoc (as : List (StatsAction T)) (a : StatsAction T) :
    eventsCounted k (as ++ [a]) = eventsCounted k as + (a.counts k).toNat := by
  simp [eventsCounted]

variable [TransportStats T] {s s' : ThreadStats T} {a : StatsAction T}

theorem total_eq : s.total k = (s.queues.map (·.stats.cell k)).sum + s.retired.count k := by
  simp [total, reply, StatsReply.total, QueueStats.snapshot, Function.comp_def]

theorem total_pruneDeadQueues : s.pruneDeadQueues.total k = s.total k := by
  rw [total_eq, total_eq, pruneDeadQueues, foldl_absorb, ← add_assoc]
  congr 1
  induction s.queues with
  | nil => simp
  | cons e es ih =>
    cases h : e.held <;> simp only [List.filter_cons, h, Bool.not_false, Bool.not_true, if_true,
      Bool.false_eq_true, if_false, List.map_cons, List.sum_cons, ← ih] <;> abel

theorem total_clearThreadStats : s.clearThreadStats.total k = 0 := by
  rw [total_eq]
  simp only [clearThreadStats, QueueStats.reset, List.map_map, Function.comp_def,
    QueueStatsSnapshot.default]
  induction s.queues with
  | nil => rfl
  | cons e es ih => simp

def reported (s : ThreadStats T) (k : Counter) : UInt64 := (s.cleared.map (·.total k)).sum

theorem total_own {i : Nat} {f : Entry T → Entry T} {n : UInt64}
    (hf : ∀ e, (f e).stats.cell k = e.stats.cell k + n) (h : s.own i f = some s') :
    s'.total k = s.total k + n ∧ s'.reported k + s'.total k = s.reported k + s.total k + n := by
  simp only [own] at h
  split at h
  · rename_i e he
    obtain ⟨-, rfl⟩ := of_guard h
    have ht : total { s with queues := s.queues.set i (f e) } k = s.total k + n := by
      have hset := sum_map_set (·.stats.cell k) (f e) he
      rw [hf, add_comm (e.stats.cell k), ← add_assoc] at hset
      rw [total_eq, total_eq, add_right_cancel hset]
      abel
    exact ⟨ht, by rw [ht, reported, reported]; abel⟩
  · cases h

/-- **One step**: the total grows by what was counted, and a clear reports all of it. -/
theorem total_step (hs : s.step a = some s') :
    s'.total k = (if a.clears then 0 else s.total k + a.counts k) ∧
      s'.reported k + s'.total k = s.reported k + s.total k + a.counts k := by
  have hprune : s.pruneDeadQueues.total k = s.total k + 0 ∧
      s.pruneDeadQueues.reported k + s.pruneDeadQueues.total k = s.reported k + s.total k + 0 := by
    rw [total_pruneDeadQueues, add_zero, add_zero]
    exact ⟨rfl, rfl⟩
  cases a with
  | conn =>
    obtain rfl := Option.some.inj hs
    exact hprune
  | register qid boot wr =>
    obtain rfl : _ = s' := Option.some.inj hs
    dsimp only [QueueStats.new]
    have ht : total { s with queues := s.queues ++ [⟨⟨qid, 0, boot, wr⟩, true⟩] } k
        = s.total k + boot k := by
      rw [total_eq, total_eq]
      simp only [List.map_append, List.map_cons, List.map_nil, List.sum_append, List.sum_singleton]
      abel
    exact ⟨ht, by rw [ht, reported, reported, StatsAction.counts]; abel⟩
  | setCntlid i cntlid => exact total_own (fun e => by simp [StatsAction.counts]) hs
  | transport i f => exact total_own (fun e => by simp [StatsAction.counts]) hs
  | ends i => exact total_own (fun e => by simp [StatsAction.counts]) hs
  | count i k' n =>
    refine total_own (fun e => ?_) hs
    by_cases hk : k = k' <;> simp [StatsAction.counts, QueueStats.statAdd, hk]
  | stats clear =>
    obtain rfl := Option.some.inj hs
    cases clear with
    | false => exact hprune
    | true =>
      have ht : (s.replyThreadStats true).total k = 0 := total_clearThreadStats (s := s.pruneDeadQueues)
      refine ⟨ht, ?_⟩
      have hr : (s.replyThreadStats true).reported k = s.reported k + s.pruneDeadQueues.total k := by
        simp [replyThreadStats, reported, total, pruneDeadQueues]
      rw [hr, ht, total_pruneDeadQueues]
      rfl

theorem toNat_add_mod {x y : UInt64} {m n : Nat} (hx : x.toNat = m % 2 ^ 64) (hy : y.toNat = n) :
    (x + y).toNat = (m + n) % 2 ^ 64 := by
  rw [UInt64.toNat_add, hx, hy, Nat.mod_add_mod]

theorem counted_run : ∀ {as since before : List (StatsAction T)} {s : ThreadStats T},
    (s.total k).toNat = eventsCounted k since % 2 ^ 64 →
    (s.reported k + s.total k).toNat = eventsCounted k before % 2 ^ 64 →
    runFrom step s as = some s' →
    (s'.total k).toNat = eventsCounted k
        (as.foldl (fun since a => if a.clears then [] else since ++ [a]) since) % 2 ^ 64 ∧
      (s'.reported k + s'.total k).toNat = eventsCounted k (before ++ as) % 2 ^ 64
  | [], since, before, s, ht, hr, hrun => by
    obtain rfl : s = s' := by simpa using hrun
    exact ⟨ht, by rwa [List.append_nil]⟩
  | a :: as, since, before, s, ht, hr, hrun => by
    obtain ⟨t, hs, hrun⟩ := runFrom_cons.1 hrun
    obtain ⟨htotal, hall⟩ := total_step (k := k) hs
    rw [List.foldl_cons, show before ++ a :: as = before ++ [a] ++ as by simp]
    refine counted_run ?_ (by rw [hall, eventsCounted_snoc, toNat_add_mod hr rfl]) hrun
    rw [htotal]
    split
    · rfl
    · rw [eventsCounted_snoc, toNat_add_mod ht rfl]

end ThreadStats

/-- After any history of a queue thread, the live queues' counters and the retired accumulator add up to
the events counted since the last clear, in the counters' 64 bits. Together with the replies that were
followed by a clear they are all the events ever counted: each is in exactly one of them. -/
theorem thread_stats_conserved {T : Type} [TransportStats T] (as : List (StatsAction T))
    (s : ThreadStats T) (k : Counter) (hrun : runFrom ThreadStats.step .start as = some s) :
    (s.total k).toNat = eventsCounted k (sinceClear as) % 2 ^ 64 ∧
      ((s.cleared.map (·.total k)).sum + s.total k).toNat = eventsCounted k as % 2 ^ 64 :=
  have hstart : ((ThreadStats.start : ThreadStats T).reported k +
      (ThreadStats.start : ThreadStats T).total k).toNat =
        eventsCounted k ([] : List (StatsAction T)) % 2 ^ 64 := rfl
  ThreadStats.counted_run rfl hstart hrun

/-- The `sq_doorbells` counter of an RDMA queue. -/
structure SqDoorbells where
  count : UInt64

instance : TransportStats SqDoorbells := ⟨fun d => [("sq_doorbells", d.count)], fun _ => ⟨0⟩⟩

/-- Queue 1 ends with its events unreported and retires at the clear; queue 2, which had executed its
Connect when it was listed, counts on. -/
def twoQueues : List (StatsAction SqDoorbells) :=
  [.conn, .register 1 (fun _ => 0) (some ⟨0⟩), .conn,
    .register 2 (fun k => if k = .otherCmds then 1 else 0) (some ⟨0⟩), .count 0 .readCmds 1,
    .transport 1 fun d => ⟨d.count + 1⟩, .ends 0, .stats true, .count 0 .readCmds 2, .ends 0, .conn]

theorem thread_stats_conserved_two_queues :
    ∃ s, runFrom ThreadStats.step .start twoQueues = some s ∧ (s.total .readCmds).toNat = 2 ∧
      ((s.cleared.map (·.total .readCmds)).sum + s.total .readCmds).toNat = 3 :=
  have h := thread_stats_conserved twoQueues _ .readCmds rfl
  ⟨_, rfl, h.1.trans (by decide), h.2.trans (by decide)⟩

def threeDoorbells : List (StatsAction SqDoorbells) :=
  [.conn, .register 1 (fun _ => 0) (some ⟨0⟩), .transport 0 fun d => ⟨d.count + 3⟩]

/-- Three doorbells are reported while the queue lives; when it has ended they are gone without a
clear. -/
theorem transport_counters_end_with_queue :
    (∃ s, runFrom ThreadStats.step .start threeDoorbells = some s ∧ s.reply.wr "sq_doorbells" = 3) ∧
    ∃ s, runFrom ThreadStats.step .start (threeDoorbells ++ [.ends 0, .stats false]) = some s ∧
      s.cleared = [] ∧ s.reply.wr "sq_doorbells" = 0 :=
  ⟨⟨_, rfl, by decide⟩, _, rfl, rfl, by decide⟩

end Ioutgt.Harness
