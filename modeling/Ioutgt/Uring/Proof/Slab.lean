import Ioutgt.Uring.Slab

/-!
# What reaping does to an entry

* `entries_route_of_ne` and its kin: an operation on one key leaves the entries of the others;
* `reap_entry`: an entry whose owner is there stays, and has ended exactly when its terminal completion
  was among those reaped;
* `reap_quiet`: an entry whose waker was not woken had no completion.
-/

namespace Ioutgt.Uring.Slab

variable {s s' : Slab} {key key' task : Nat} {e : OpEntry} {cqe : Cqe}

@[simp] theorem entries_put_self (s : Slab) (key : Nat) (e : OpEntry) :
    (s.put key e).entries key = some e := by
  simp [put]

theorem entries_put_of_ne (s : Slab) (e : OpEntry) (h : key' ≠ key) :
    (s.put key e).entries key' = s.entries key' := by
  simp [put, h]

theorem entries_remove_of_ne (s : Slab) (h : key' ≠ key) :
    (s.remove key).entries key' = s.entries key' := by
  simp [remove, h]

@[simp] theorem entries_insert_self (s : Slab) (key : Nat) (e : OpEntry) :
    (s.insert key e).entries key = some e := by
  simp [insert]

theorem entries_insert_of_ne (s : Slab) (e : OpEntry) (h : key' ≠ key) :
    (s.insert key e).entries key' = s.entries key' := by
  simp [insert, h]

theorem entries_orphan_of_ne (s : Slab) (h : key' ≠ key) :
    (s.orphan key).entries key' = s.entries key' := by
  unfold orphan
  split
  · rfl
  · split
    · exact entries_remove_of_ne s h
    · exact entries_put_of_ne s _ h

theorem entries_pollNext_of_ne {r : Polled × Bool × Slab} (h : s.pollNext key task = some r)
    (hne : key' ≠ key) : r.2.2.entries key' = s.entries key' := by
  obtain ⟨e, -, rfl⟩ := Option.map_eq_some_iff.1 h
  split
  · split
    · exact entries_remove_of_ne s hne
    · exact entries_put_of_ne s _ hne
  · split
    · exact entries_remove_of_ne s hne
    · exact entries_put_of_ne s _ hne

theorem entries_pollSingle_of_ne {r : Polled × Bool × Slab} (h : s.pollSingle key task = some r)
    (hne : key' ≠ key) : r.2.2.entries key' = s.entries key' := by
  obtain ⟨e, -, rfl⟩ := Option.map_eq_some_iff.1 h
  split
  · exact entries_remove_of_ne s hne
  · exact entries_put_of_ne s _ hne

/-! ## Polling an operation -/

theorem pollNext_pending {done : Bool} (h : s.pollNext key task = some (.pending, done, s')) :
    ∃ e, s.entries key = some e ∧ e.results = [] ∧ e.terminated = false ∧
      s' = s.put key { e with waker := some task } := by
  obtain ⟨e, he, h⟩ := Option.map_eq_some_iff.1 h
  refine ⟨e, he, ?_⟩
  split at h
  · split at h <;> cases h
  · rename_i hres
    split at h
    · cases h
    · rename_i hterm
      cases h
      exact ⟨hres, by simpa using hterm, rfl⟩

theorem pollNext_ready {done : Bool} {r : CqeResult}
    (h : s.pollNext key task = some (.ready r, done, s')) :
    ∃ e, s.entries key = some e ∧
      (done = false → ∃ rest, s' = s.put key { e with results := rest }) := by
  obtain ⟨e, he, h⟩ := Option.map_eq_some_iff.1 h
  refine ⟨e, he, fun hdone => ?_⟩
  split at h
  · rename_i rest _
    split at h
    · cases h
      cases hdone
    · cases h
      exact ⟨_, rfl⟩
  · split at h <;> cases h

/-! ## Reaping -/

theorem entries_route_of_ne (h : cqe.key ≠ some key) : (s.route cqe).1.entries key = s.entries key := by
  unfold route
  split
  · rfl
  · rename_i key' hkey
    have hne : key ≠ key' := fun he => h (he ▸ hkey)
    split
    · rfl
    · dsimp only
      split
      · split
        · exact entries_remove_of_ne s hne
        · exact entries_put_of_ne s _ hne
      · exact entries_put_of_ne s _ hne

theorem route_self (hkey : cqe.key = some key) (he : s.entries key = some e)
    (howned : e.orphaned = false) :
    s.route cqe = (s.put key { e with
      terminated := e.terminated || !cqe.result.more
      results := e.results ++ [cqe.result]
      waker := none }, e.waker) := by
  simp [route, hkey, he, howned]

theorem entries_route_none (h : s.entries key = none) : (s.route cqe).1.entries key = none := by
  by_cases hkey : cqe.key = some key
  · simp [route, hkey, h]
  · rw [entries_route_of_ne hkey, h]

theorem entries_reap_none {l : List Cqe} :
    ∀ {s : Slab}, s.entries key = none → (s.reap l).1.entries key = none := by
  induction l with
  | nil => exact fun h => h
  | cons cqe l ih => exact fun h => ih (entries_route_none h)

theorem reap_entry {l : List Cqe} : ∀ {s : Slab} {e : OpEntry}, s.entries key = some e →
    e.orphaned = false → ∃ e', (s.reap l).1.entries key = some e' ∧ e'.orphaned = false ∧
      (e'.terminated = true ↔
        e.terminated = true ∨ ∃ c ∈ l, c.key = some key ∧ c.result.more = false) := by
  induction l with
  | nil => exact fun he ho => ⟨_, he, ho, by simp⟩
  | cons cqe l ih =>
    intro s e he ho
    by_cases hkey : cqe.key = some key
    · have hnext : (s.route cqe).1.entries key = some { e with
          terminated := e.terminated || !cqe.result.more
          results := e.results ++ [cqe.result]
          waker := none } := by
        rw [route_self hkey he ho]
        exact entries_put_self _ _ _
      obtain ⟨e', he', ho', ht⟩ := ih hnext ho
      refine ⟨e', he', ho', ht.trans ?_⟩
      simp [hkey, or_assoc]
    · have hnext : (s.route cqe).1.entries key = some e := (entries_route_of_ne hkey).trans he
      obtain ⟨e', he', ho', ht⟩ := ih hnext ho
      refine ⟨e', he', ho', ht.trans ?_⟩
      simp [hkey]

theorem reap_quiet {l : List Cqe} : ∀ {s : Slab}, s.entries key = some e → e.orphaned = false →
    e.waker = some task → task ∉ (s.reap l).2 →
    (s.reap l).1.entries key = some e := by
  induction l with
  | nil => exact fun he _ _ _ => he
  | cons cqe l ih =>
    intro s he ho hw hquiet
    have hsplit : task ∉ (s.route cqe).2.toList ∧ task ∉ ((s.route cqe).1.reap l).2 := by
      simpa [reap, not_or] using hquiet
    by_cases hkey : cqe.key = some key
    · -- it would have woken the task
      rw [route_self hkey he ho, hw] at hsplit
      exact absurd (by simp) hsplit.1
    · exact ih (by rw [entries_route_of_ne hkey]; exact he) ho hw hsplit.2

end Ioutgt.Uring.Slab
