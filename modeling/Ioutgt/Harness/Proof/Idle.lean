import Ioutgt.Harness.Proof.Pool

/-!
# When the pool is taken down

The control thread's timer starts a clock when it finds no connection open, an accepted connection stops
the clock, and the pool goes once it has run for the grace period.

* `Target.since_run`: since the tick that started a running clock nothing was accepted;
* `Target.told_step`: only the timer tells a thread to shut down;
* `pool_shut_down_only_when_idle`.
-/

namespace Ioutgt.Harness

open Lib

/-- A history, each step with its time: time does not go back, and the timer reads it. -/
structure Clocked (h : List (Nat × PoolAction)) : Prop where
  mono : h.Pairwise fun e f => e.1 ≤ f.1
  ticks : ∀ e ∈ h, ∀ now, e.2 = .tick now → now = e.1

namespace Target

def shutdowns (s : Target) (th : ThreadId) : Nat :=
  ((s.threads th).elim [] QueueThread.mailbox).count .shutdown

variable {config : PoolConfig} {s s' : Target} {a : PoolAction} {th : ThreadId} {c : Nat}

/-! ## The counter and the clock -/

theorem ensurePoolUp_spec {u : Target} {spawn : Option (Nat → Bool)}
    (h : { s with idleSince := none }.ensurePoolUp config spawn = u) : u.idleSince = none ∧
      u.active = s.active ∧ s.pools ≤ u.pools ∧
      (∀ pool, u.senders = some pool → s.senders = some pool ∨ s.pools ≤ pool) ∧
      ∀ th, u.shutdowns th ≤ s.shutdowns th := by
  subst h
  unfold Target.ensurePoolUp
  split
  · exact ⟨rfl, rfl, Nat.le_refl _, fun _ => .inl, fun _ => Nat.le_refl _⟩
  · exact ⟨rfl, rfl, Nat.le_refl _, fun _ => .inl, fun _ => Nat.le_refl _⟩
  · refine ⟨rfl, rfl, Nat.le_succ _, fun pool h => .inr (Nat.le_of_eq (Option.some.inj h)), fun th => ?_⟩
    -- a new thread has an empty mailbox
    simp only [shutdowns]
    split <;> simp

theorem clock_step (h : Stepped config s a s') : s.pools ≤ s'.pools ∧
    (∀ pool, s'.senders = some pool → s.senders = some pool ∨ s.pools ≤ pool) ∧
    (s'.active ≤ s.active ∨ s'.active ≤ maxConnections ∧ s'.idleSince = none) ∧
    ∀ t, s'.idleSince = some t → s.idleSince = some t ∨ a = .tick t ∧ s.active = 0 := by
  cases h with
  | accept up _ bound =>
    obtain ⟨hidle, hactive, hpools⟩ := ensurePoolUp_spec up
    refine ⟨hpools.1, hpools.2.1, ?_, fun t h => by cases hidle.symm.trans h⟩
    exact bound.imp (hactive ▸ ·) fun h => ⟨h, hidle⟩
  | closes | exits => exact ⟨Nat.le_refl _, fun _ => .inl, .inl (Nat.sub_le ..), fun _ => .inl⟩
  | routed | turns | takes | sends =>
    exact ⟨Nat.le_refl _, fun _ => .inl, .inl (Nat.le_refl _), fun _ => .inl⟩
  | idles _ clock => exact ⟨Nat.le_refl _, fun _ => .inl, .inl (Nat.le_refl _), clock⟩
  | tearsDown =>
    exact ⟨Nat.le_refl _, (fun _ h => by cases h), .inl (Nat.le_refl _), fun _ h => by cases h⟩

theorem accept_stops (config : PoolConfig) (s : Target) (spawn : Option (Nat → Bool)) :
    (s.handleAccept config spawn).idleSince = none := by
  unfold handleAccept
  obtain ⟨hidle, -⟩ :=
    ensurePoolUp_spec (rfl : { s with idleSince := none }.ensurePoolUp config spawn = _)
  dsimp only
  split
  · exact hidle
  · split <;> exact hidle

/-- The permits are bounded, and the clock runs only while none is taken. -/
structure Counted (s : Target) : Prop where
  le : s.active ≤ maxConnections
  idle : ∀ t, s.idleSince = some t → s.active = 0

theorem Counted.step (hc : s.Counted) (hs : s.step config a = some s') : s'.Counted := by
  obtain ⟨-, -, hactive, hclock⟩ := clock_step (step_spec hs)
  rcases hactive with hle | ⟨hle, hnone⟩
  · refine ⟨Nat.le_trans hle hc.le, fun t ht => Nat.eq_zero_of_le_zero ?_⟩
    rcases hclock t ht with h | ⟨-, h⟩
    · exact hc.idle t h ▸ hle
    · exact h ▸ hle
  · exact ⟨hle, fun t ht => by cases hnone.symm.trans ht⟩

/-- **Since the clock was started**: it ran all the time, and nothing was accepted. -/
theorem since_run {since : Nat} {h : List (Nat × PoolAction)} (hlater : ∀ f ∈ h, since < f.1)
    (hticks : ∀ f ∈ h, ∀ now, f.2 = .tick now → now = f.1) :
    ∀ {s s' : Target}, runFrom (step config) s (h.map Prod.snd) = some s' → s'.idleSince = some since →
      s.idleSince = some since ∧ ∀ f ∈ h, ∀ spawn, f.2 ≠ .accept spawn := by
  induction h with
  | nil =>
    intro s s' hrun hs
    obtain rfl := Option.some.inj hrun
    exact ⟨hs, fun f hf => by cases hf⟩
  | cons f h ih =>
    intro s s' hrun hs
    obtain ⟨u, hu, hrun⟩ := runFrom_cons.1 hrun
    obtain ⟨hsince, hrest⟩ := ih (fun g hg => hlater g (List.mem_cons_of_mem f hg))
      (fun g hg => hticks g (List.mem_cons_of_mem f hg)) hrun hs
    refine ⟨?_, fun g hg => ?_⟩
    · rcases (clock_step (step_spec hu)).2.2.2 since hsince with h | ⟨h, -⟩
      · exact h
      · -- the clock would have been started after `since`
        have hnow := hticks f (List.mem_cons_self ..) since h
        exact absurd (hlater f (List.mem_cons_self ..)) (by omega)
    · rcases List.mem_cons.1 hg with rfl | hg
      · intro spawn ha
        rw [ha] at hu
        obtain rfl := Option.some.inj hu
        cases (accept_stops config s spawn).symm.trans hsince
      · exact hrest g hg

/-! ## Telling a thread to shut down -/

theorem shutdowns_eq {t : QueueThread} (ht : s.threads th = some t) :
    s.shutdowns th = t.mailbox.count .shutdown := by
  simp [shutdowns, ht]

theorem shutdowns_congr (h : s'.threads th = s.threads th) : s'.shutdowns th = s.shutdowns th := by
  simp [shutdowns, h]

theorem shutdowns_setThread_le {s₁ : Target} (hsame : s₁.threads = s.threads) {th' : ThreadId}
    {t t' : QueueThread} (ht : s.threads th' = some t)
    (hle : t'.mailbox.count .shutdown ≤ t.mailbox.count .shutdown) (th : ThreadId) :
    (s₁.setThread th' t').shutdowns th ≤ s.shutdowns th := by
  by_cases h : th = th'
  · subst h
    rw [shutdowns_eq (setThread_self ..), shutdowns_eq ht]
    exact hle
  · exact Nat.le_of_eq (shutdowns_congr ((setThread_other s₁ t' h).trans (congrFun hsame th)))

theorem shutdowns_send_le {s₁ : Target} (hsame : s₁.threads = s.threads) {th' : ThreadId} {msg : Msg}
    (hmsg : msg ≠ .shutdown) (th : ThreadId) : (s₁.send th' msg).shutdowns th ≤ s.shutdowns th := by
  cases ht : s₁.threads th' with
  | none => exact Nat.le_of_eq (by rw [send_none ht, shutdowns_congr (congrFun hsame th)])
  | some t =>
    rw [send_eq ht]
    exact shutdowns_setThread_le hsame (hsame ▸ ht) (by simp [List.count_append, hmsg]) th

/-- Only the timer tells a thread to shut down: its pool is up, idle for the grace period, and down
afterwards. -/
theorem told_step (hi : Inv config s) (hs : s.step config a = some s')
    (hlt : s.shutdowns th < s'.shutdowns th) : ∃ now grace, a = .tick now ∧
      config.idleTeardown = some grace ∧ s.active = 0 ∧ grace ≤ now - s.idleSince.getD now ∧
      th.pool < s'.pools ∧ s'.senders = none := by
  have hno : ¬ s'.shutdowns th ≤ s.shutdowns th := Nat.not_le.2 hlt
  cases step_spec hs with
  | accept up => exact absurd ((ensurePoolUp_spec up).2.2.2.2 th) hno
  | routed => exact absurd (shutdowns_send_le (s := s) rfl (by simp) th) hno
  | sends _ _ shutdown => exact absurd (shutdowns_send_le rfl shutdown th) hno
  | turns thread _ rest => exact absurd (shutdowns_setThread_le rfl thread (rest.count_le _) th) hno
  | takes thread _ mail => exact absurd (shutdowns_setThread_le rfl thread (by simp [mail]) th) hno
  | exits thread _ rest => exact absurd (shutdowns_setThread_le rfl thread (rest.count_le _) th) hno
  | closes | idles => exact absurd (Nat.le_refl _) hno
  | @tearsDown now pool grace configured up idle elapsed =>
    cases ht : s.threads th with
    | none => exact absurd (by simp [shutdowns, Target.teardownPool, ht]) hno
    | some t => exact ⟨now, grace, rfl, configured, idle, elapsed, hi.built th t ht, rfl⟩

def Retired (pool : Nat) (s : Target) : Prop := pool < s.pools ∧ s.senders ≠ some pool

theorem Retired.step {pool : Nat} (h : s.Retired pool) (hs : s.step config a = some s') :
    s'.Retired pool := by
  obtain ⟨hpools, hsenders, -⟩ := clock_step (step_spec hs)
  refine ⟨Nat.lt_of_lt_of_le h.1 hpools, fun hp => ?_⟩
  rcases hsenders pool hp with hp | hp
  · exact h.2 hp
  · exact absurd h.1 (Nat.not_lt.2 hp)

theorem Inv.routed (hi : Inv config s) {qid : Option Nat} (hroute : s.routedTo config c qid = some th)
    (hs : s.step config (.handshake c qid) = some s') : s.senders = some th.pool ∧
      ∃ t, s.threads th = some t ∧ s'.threads th = some { t with mailbox := t.mailbox ++ [.conn c] } := by
  unfold routedTo at hroute
  split at hroute
  · rename_i pool hc
    obtain ⟨index, hindex, rfl⟩ := Option.map_eq_some_iff.1 hroute
    obtain ⟨q, -, hq⟩ := Option.bind_eq_some_iff.1 hindex
    have hsenders := hi.handshake c pool hc
    obtain ⟨t, ht⟩ := (hi.pool pool hsenders).2 index (route_le hq)
    refine ⟨hsenders, t, ht, ?_⟩
    simp only [Target.step, hc, handshaken, hindex] at hs
    obtain rfl := Option.some.inj hs
    simp [Target.send, ht]
  · cases hroute

end Target

/-- **The pool is told to shut down only when idle.** In every history, where `s₁` is a state it passed
through, `h₂` the steps since and `e` the next one: the permits are those of the open connections, at
most `maxConnections`; if `e` tells a thread to shut down and all of `h₂` lies in the grace period before
it, then no connection was open in `s₁` and none was accepted since; and a connection handed to a thread
goes into its mailbox, to which no earlier step sent a shutdown. -/
theorem pool_shut_down_only_when_idle (config : PoolConfig) (h₁ h₂ : List (Nat × PoolAction))
    (e : Nat × PoolAction) (s₁ s s' : Target) (hclock : Clocked (h₁ ++ h₂ ++ [e]))
    (hrun₁ : runFrom (Target.step config) .start (h₁.map Prod.snd) = some s₁)
    (hrun₂ : runFrom (Target.step config) s₁ (h₂.map Prod.snd) = some s)
    (hstep : s.step config e.2 = some s') :
    s'.active = s'.conns.countP Place.isOpen ∧ s'.active ≤ maxConnections ∧
      (∀ th, s.shutdowns th < s'.shutdowns th → ∃ grace, config.idleTeardown = some grace ∧
        ((∀ f ∈ h₂, e.1 < f.1 + grace) →
          (∀ p ∈ s₁.conns, p.isOpen = false) ∧ ∀ f ∈ h₂, ∀ spawn, f.2 ≠ .accept spawn)) ∧
      ∀ c qid th, e.2 = .handshake c qid → s.routedTo config c qid = some th →
        (∃ t, s.threads th = some t ∧
          s'.threads th = some { t with mailbox := t.mailbox ++ [.conn c] }) ∧
        ∀ f h₃ s₂, h₂ = f :: h₃ → s₁.step config f.2 = some s₂ →
          s₂.shutdowns th ≤ s₁.shutdowns th := by
  have hi₁ : s₁.Inv config :=
    @runFrom_invariant _ _ (Target.step config) (Target.Inv config) Target.Inv.step _ _ _ .start hrun₁
  have hi : s.Inv config :=
    @runFrom_invariant _ _ (Target.step config) (Target.Inv config) Target.Inv.step _ _ _ hi₁ hrun₂
  have hcounted := fun {h s s'} => @runFrom_invariant _ _ (Target.step config) Target.Counted
    Target.Counted.step h s s'
  have hc₁ := hcounted ⟨Nat.zero_le _, fun t h => by cases h⟩ hrun₁
  have hc := hcounted hc₁ hrun₂
  have he : e ∈ h₁ ++ h₂ ++ [e] := List.mem_append_right _ (List.mem_singleton.2 rfl)
  refine ⟨(hi.step hstep).active, (hc.step hstep).le, fun th hlt => ?_, fun c qid th he hroute => ?_⟩
  · obtain ⟨now, grace, htick, hgrace, hidle, helapsed, -⟩ := Target.told_step hi hstep hlt
    refine ⟨grace, hgrace, fun hlater => ?_⟩
    obtain rfl := hclock.ticks e he now htick
    have hbefore : ∀ f ∈ h₂, f.1 ≤ e.1 := fun f hf =>
      (List.pairwise_append.1 hclock.mono).2.2 f (List.mem_append_right _ hf) e (List.mem_singleton.2 rfl)
    obtain ⟨hactive, hnone⟩ : s₁.active = 0 ∧ ∀ f ∈ h₂, ∀ spawn, f.2 ≠ .accept spawn := by
      cases hsince : s.idleSince with
      | none =>
        -- no grace period at all, and nothing is later than now
        obtain rfl : h₂ = [] := List.eq_nil_iff_forall_not_mem.2 fun f hf => by
          have hf₁ := hlater f hf
          have hf₂ := hbefore f hf
          simp only [hsince, Option.getD_none] at helapsed
          omega
        obtain rfl := Option.some.inj hrun₂
        exact ⟨hidle, fun f hf => by cases hf⟩
      | some since =>
        simp only [hsince, Option.getD_some] at helapsed
        have hticks : ∀ f ∈ h₂, ∀ now, f.2 = .tick now → now = f.1 := fun f hf =>
          hclock.ticks f (List.mem_append_left _ (List.mem_append_right _ hf))
        obtain ⟨hsince₁, hnone⟩ := Target.since_run (fun f hf => by
          have hf₁ := hlater f hf
          have hf₂ := hbefore f hf
          omega) hticks hrun₂ hsince
        exact ⟨hc₁.idle since hsince₁, hnone⟩
    refine ⟨fun p hp => ?_, hnone⟩
    exact Bool.not_eq_true _ ▸ List.countP_eq_zero.1 (hi₁.active.symm.trans hactive) p hp
  · rw [he] at hstep
    obtain ⟨hsenders, hmail⟩ := hi.routed hroute hstep
    refine ⟨hmail, fun f h₃ s₂ hh hs₂ => Nat.not_lt.1 fun hlt => ?_⟩
    subst hh
    obtain ⟨u, hu, hrun⟩ := runFrom_cons.1 hrun₂
    obtain rfl : u = s₂ := Option.some.inj (hu.symm.trans hs₂)
    obtain ⟨-, -, -, -, -, -, hpool, hdown⟩ := Target.told_step hi₁ hs₂ hlt
    have hretired : s.Retired th.pool := @runFrom_invariant _ _ (Target.step config)
      (Target.Retired th.pool) Target.Retired.step _ _ _ ⟨hpool, by simp [hdown]⟩ hrun
    exact hretired.2 hsenders

/-- The setup of the one connection fails at time 5, the timer finds the pool idle at 10 and takes it down
at 25: nothing was open in the ten units before. -/
theorem pool_shut_down_only_when_idle_since_ten :
    ∃ s₁ s s', runFrom (Target.step twoIoThreads) .start
        [.accept (some fun _ => true), .handshake 0 none, .tick 10] = some s₁ ∧
      runFrom (Target.step twoIoThreads) s₁ [.statsRequest 0] = some s ∧
      s.step twoIoThreads (.tick 25) = some s' ∧ s.shutdowns ⟨0, 0⟩ < s'.shutdowns ⟨0, 0⟩ ∧
      ∀ p ∈ s₁.conns, p.isOpen = false := by
  refine ⟨_, _, _, rfl, rfl, rfl, by decide +kernel, ?_⟩
  obtain ⟨grace, hgrace, hidle⟩ := (pool_shut_down_only_when_idle twoIoThreads
    [(1, .accept (some fun _ => true)), (5, .handshake 0 none), (10, .tick 10)] [(20, .statsRequest 0)]
    (25, .tick 25) _ _ _ ⟨by decide, by simp⟩ rfl rfl rfl).2.2.1 ⟨0, 0⟩ (by decide +kernel)
  obtain rfl : 10 = grace := Option.some.inj hgrace
  exact (hidle (by decide)).1

end Ioutgt.Harness
