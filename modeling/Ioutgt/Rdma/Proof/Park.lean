import Ioutgt.Rdma.Park
import Ioutgt.Uring.Proof.Slab

/-!
# What a queue thread sleeps on

* `ParkThread.Inv`: a queue whose task is not to run waits with its wakers in place, for a poll that is
  live or whose end is in the ring; and what holds at each place of the hook (`Phase`, `Pass`);
* `Pointwise`, `Keeps`, `Inv.keeps`: a step that leaves the polls alone has only its own place to
  account for;
* `Env`: what the device and the kernel do leaves every queue watched that was;
* `Pass.turn`, `Pass.next`: a probe goes on, or is over;
* `Inv.step`: every step keeps the invariant;
* `park_returns_woken_iff`: the hook always returns with a task woken, or idle, exactly when every pass
  in which arming failed found a completion;
* `sleeps_only_watched`: a thread in the ring wait is woken by the next completion of any queue.
-/

namespace Ioutgt.Rdma

open Lib Ioutgt.Uring

variable {st : ProbeStep} {slab : Slab}

namespace ParkThread

variable {s s' : ParkThread} {a : ParkAction} {j k : Nat} {q q' : ProbedQueue}

/-! ## The invariant -/

structure QueueOk (s : ParkThread) (k : Nat) (q : ProbedQueue) : Prop where
  key : q.compPoll < s.nextKey
  probe : k ∈ s.probes
  entry : q.pollDone = false → ∃ e, s.slab.entries q.compPoll = some e ∧ e.orphaned = false ∧
    (q.pollState = .ended → e.terminated = true ∨
      ∃ c ∈ s.ring, c.key = some q.compPoll ∧ c.result.more = false)
  pending : k ∉ s.runnable → q.pollDone = false ∧ q.waker = true ∧
    ∃ e, s.slab.entries q.compPoll = some e ∧ e.waker = some k ∧ e.terminated = false

def Resting (s : ParkThread) (q : ProbedQueue) : Prop :=
  s.Watched q ∨ q.staged = [] ∧ q.poll = true ∧ q.idle = false

/-- In a pass over the probes, with those of `todo` to go and the first of them at `st`. -/
structure Pass (s : ParkThread) (todo : List Nat) (st : ProbeStep) : Prop where
  sub : ∀ k ∈ todo, k ∈ s.probes
  nodup : todo.Nodup
  asleep : ∀ k ∈ todo, k ∉ s.runnable
  staged : ∀ k q, s.queues k = some q → k ∉ s.runnable → (st = .finish → todo.head? ≠ some k) →
    q.staged = []
  work : s.work = true ↔ s.failed = true ∨ s.runnable ≠ []
  found : s.found = true ↔ s.runnable ≠ [] ∨ st = .finish ∧
    ∃ k q, todo.head? = some k ∧ s.queues k = some q ∧ q.staged ≠ []
  armed : st = .redrain → ∀ k q, todo.head? = some k → s.queues k = some q →
    q.armed = true ∨ q.cq ≠ []
  finish : st = .finish → ∀ k q, todo.head? = some k → s.queues k = some q →
    q.staged ≠ [] ∨ s.Resting q
  rested : s.failed = false → ∀ k q, s.queues k = some q → k ∉ todo → k ∉ s.runnable → s.Resting q

def Phase (s : ParkThread) : Loc → Prop
  | .tasks => ∀ k q, s.queues k = some q → k ∉ s.runnable → q.staged = []
  | .top => s.runnable = [] ∧ ∀ k q, s.queues k = some q → q.staged = []
  | .probing todo st => s.Pass todo st
  | .spinCheck => s.runnable = [] ∧ s.work = false ∧ ∀ k q, s.queues k = some q → s.Resting q
  | .wait => s.runnable = [] ∧ ∀ k q, s.queues k = some q → s.Watched q
  | .sleeping => s.runnable = [] ∧
      ∀ k q, s.queues k = some q → s.Watched q ∧ q.pollState ≠ .unsubmitted
  | .waited => s.runnable = [] ∧ ∀ k q, s.queues k = some q → q.staged = []
  | .dead => True

structure Inv (s : ParkThread) : Prop where
  queues : ∀ k q, s.queues k = some q → s.QueueOk k q
  apart : ∀ j k p q, j ≠ k → s.queues j = some p → s.queues k = some q → p.compPoll ≠ q.compPoll
  probes : ∀ k ∈ s.probes, ∃ q, s.queues k = some q
  nodup : s.probes.Nodup
  fresh : ∀ key, s.nextKey ≤ key → s.slab.entries key = none
  phase : s.Phase s.loc

theorem Inv.start : Inv start where
  queues := fun _ _ h => nomatch h
  apart := fun _ _ _ _ _ h => nomatch h
  probes := fun _ h => nomatch h
  nodup := List.nodup_nil
  fresh := fun _ _ => rfl
  phase := fun _ _ h => nomatch h

theorem Inv.isOther (hi : Inv s) {key : Nat} (h : s.isOther key = true) (hk : s.queues k = some q) :
    q.compPoll ≠ key := by
  have hall := List.all_eq_true.1 h k (hi.queues k q hk).probe
  rw [hk] at hall
  simpa using hall

/-! ## Queue by queue -/

@[simp] theorem setQueue_self (s : ParkThread) (k : Nat) (q : ProbedQueue) :
    (s.setQueue k q).queues k = some q := by
  simp [setQueue]

theorem setQueue_other (s : ParkThread) (q : ProbedQueue) (h : j ≠ k) :
    (s.setQueue k q).queues j = s.queues j := by
  simp [setQueue, h]

theorem of_setQueue {p : ProbedQueue} (hj : (s.setQueue k q).queues j = some p) :
    j = k ∧ p = q ∨ j ≠ k ∧ s.queues j = some p := by
  by_cases h : j = k
  · subst h
    rw [setQueue_self] at hj
    exact .inl ⟨rfl, (Option.some.inj hj).symm⟩
  · rw [setQueue_other s q h] at hj
    exact .inr ⟨h, hj⟩

/-- `R` holds of every queue as it was in `s` and as it is in `s'`. -/
def Pointwise (R : Nat → ProbedQueue → ProbedQueue → Prop) (s s' : ParkThread) : Prop :=
  ∀ k, Option.Rel (R k) (s.queues k) (s'.queues k)

namespace Pointwise

variable {R R' : Nat → ProbedQueue → ProbedQueue → Prop}

theorem back (h : Pointwise R s s') (hk : s'.queues k = some q') :
    ∃ q, s.queues k = some q ∧ R k q q' := by
  have hrel := h k
  rw [hk] at hrel
  generalize s.queues k = x at hrel ⊢
  cases hrel with
  | some hr => exact ⟨_, rfl, hr⟩

theorem forth (h : Pointwise R s s') (hk : s.queues k = some q) :
    ∃ q', s'.queues k = some q' ∧ R k q q' := by
  have hrel := h k
  rw [hk] at hrel
  generalize s'.queues k = x at hrel ⊢
  cases hrel with
  | some hr => exact ⟨_, rfl, hr⟩

theorem map {f : ProbedQueue → ProbedQueue} (hqueues : s'.queues = fun k => (s.queues k).map f)
    (hR : ∀ k q, s.queues k = some q → R k q (f q)) : Pointwise R s s' := by
  intro k
  rw [congrFun hqueues k]
  cases hk : s.queues k with
  | none => exact .none
  | some q => exact .some (hR k q hk)

theorem same (hrefl : ∀ k q, R k q q) (hqueues : s'.queues = s.queues) : Pointwise R s s' := by
  refine map (f := id) ?_ fun k q _ => hrefl k q
  simp [hqueues]

theorem set (hrefl : ∀ k q, R k q q) (hk : s.queues k = some q) (hR : R k q q')
    (hqueues : s'.queues = (s.setQueue k q').queues) : Pointwise R s s' := by
  intro j
  rw [hqueues]
  by_cases h : j = k
  · subst h
    rw [hk, setQueue_self]
    exact .some hR
  · rw [setQueue_other s q' h]
    exact same hrefl rfl j

theorem mono (h : Pointwise R s s') (hR : ∀ k q q', R k q q' → R' k q q') : Pointwise R' s s' := by
  intro k
  have hrel := h k
  generalize s.queues k = x at hrel ⊢
  generalize s'.queues k = y at hrel ⊢
  cases hrel with
  | none => exact .none
  | some hr => exact .some (hR _ _ _ hr)

end Pointwise

/-! ## Steps that leave the polls alone -/

/-- A queue's poll and waker, before and after a step. -/
structure SamePoll (s' : ParkThread) (k : Nat) (q q' : ProbedQueue) : Prop where
  compPoll : q'.compPoll = q.compPoll
  pollDone : q'.pollDone = q.pollDone
  ended : q'.pollState = .ended → q.pollState = .ended ∨
    ∃ c ∈ s'.ring, c.key = some q.compPoll ∧ c.result.more = false
  waker : k ∉ s'.runnable → q'.waker = q.waker

theorem SamePoll.refl (s' : ParkThread) (k : Nat) (q : ProbedQueue) : SamePoll s' k q q :=
  ⟨rfl, rfl, .inl, fun _ => rfl⟩

/-- The queues change as `R` allows, and nothing their polls rest on does. -/
structure Keeps (R : Nat → ProbedQueue → ProbedQueue → Prop) (s s' : ParkThread) : Prop where
  nextKey : s.nextKey ≤ s'.nextKey
  probes : s'.probes = s.probes
  slab : ∀ k q, s.queues k = some q → s'.slab.entries q.compPoll = s.slab.entries q.compPoll
  fresh : ∀ key, s'.nextKey ≤ key → s.slab.entries key = none → s'.slab.entries key = none
  ring : ∀ c ∈ s.ring, c ∈ s'.ring
  runnable : ∀ k q, s.queues k = some q → k ∈ s.runnable → k ∈ s'.runnable
  queues : Pointwise R s s'

theorem Keeps.of_queues {R : Nat → ProbedQueue → ProbedQueue → Prop} (hqueues : Pointwise R s s')
    (hslab : s'.slab = s.slab) (hnext : s'.nextKey = s.nextKey) (hprobes : s'.probes = s.probes)
    (hring : ∀ c ∈ s.ring, c ∈ s'.ring) (hrun : ∀ j ∈ s.runnable, j ∈ s'.runnable) : Keeps R s s' where
  nextKey := Nat.le_of_eq hnext.symm
  probes := hprobes
  slab := fun _ _ _ => by rw [hslab]
  fresh := fun _ _ h => by rw [hslab]; exact h
  ring := hring
  runnable := fun j _ _ hj => hrun j hj
  queues := hqueues

theorem QueueOk.frame (hok : QueueOk s k q) (hnext : s.nextKey ≤ s'.nextKey) (hprobe : k ∈ s'.probes)
    (hslab : s'.slab.entries q.compPoll = s.slab.entries q.compPoll)
    (hring : ∀ c ∈ s.ring, c ∈ s'.ring) (hrun : k ∈ s.runnable → k ∈ s'.runnable)
    (hs : SamePoll s' k q q') : QueueOk s' k q' := by
  refine ⟨?_, hprobe, ?_, ?_⟩
  · rw [hs.compPoll]
    exact Nat.lt_of_lt_of_le hok.key hnext
  · intro hdone
    obtain ⟨e, he, ho, hend⟩ := hok.entry (hs.pollDone ▸ hdone)
    refine ⟨e, ?_, ho, fun hended => ?_⟩
    · rw [hs.compPoll, hslab]
      exact he
    · rw [hs.compPoll]
      rcases hs.ended hended with h' | h'
      · rcases hend h' with ht | ⟨c, hc, hkey, hmore⟩
        · exact .inl ht
        · exact .inr ⟨c, hring c hc, hkey, hmore⟩
      · exact .inr h'
  · intro hr
    obtain ⟨hdone, hw, e, he, hew, ht⟩ := hok.pending fun hr' => hr (hrun hr')
    refine ⟨hs.pollDone.trans hdone, (hs.waker hr).trans hw, e, ?_, hew, ht⟩
    rw [hs.compPoll, hslab]
    exact he

/-- The invariant after a step that leaves the polls alone. -/
theorem Inv.keeps (hi : Inv s) (h : Keeps (SamePoll s') s s') (hphase : s'.Phase s'.loc) : Inv s' where
  queues := by
    intro k q' hk'
    obtain ⟨q, hk, hs⟩ := h.queues.back hk'
    have hok := hi.queues k q hk
    exact hok.frame h.nextKey (h.probes ▸ hok.probe) (h.slab k q hk) h.ring (h.runnable k q hk) hs
  apart := by
    intro j k p' q' hne hj' hk'
    obtain ⟨p, hj, hp⟩ := h.queues.back hj'
    obtain ⟨q, hk, hq⟩ := h.queues.back hk'
    rw [hp.compPoll, hq.compPoll]
    exact hi.apart j k p q hne hj hk
  probes := by
    intro k hk
    obtain ⟨q, hq⟩ := hi.probes k (h.probes ▸ hk)
    obtain ⟨q', hq', -⟩ := h.queues.forth hq
    exact ⟨q', hq'⟩
  nodup := h.probes ▸ hi.nodup
  fresh := fun key hle => h.fresh key hle (hi.fresh key (Nat.le_trans h.nextKey hle))
  phase := hphase

section

variable {loc : Loc} {runnable : List Nat} {work failed found : Bool} {returns : List Return}

theorem Inv.move (hi : Inv s) (hrun : ∀ j ∈ s.runnable, j ∈ runnable)
    (hphase : ({ s with loc, runnable, work, failed, found, returns } : ParkThread).Phase loc) :
    Inv { s with loc, runnable, work, failed, found, returns } :=
  hi.keeps (.of_queues (.same (.refl _) rfl) rfl rfl rfl (fun _ h => h) hrun) hphase

theorem Inv.change (hi : Inv s) (hk : s.queues k = some q) (hrun : ∀ j ∈ s.runnable, j ∈ runnable)
    (hcompPoll : q'.compPoll = q.compPoll) (hdone : q'.pollDone = q.pollDone)
    (hps : q'.pollState = q.pollState) (hwaker : k ∉ runnable → q'.waker = q.waker)
    (hphase : ({ s.setQueue k q' with loc, runnable, work, failed, found, returns } :
      ParkThread).Phase loc) :
    Inv { s.setQueue k q' with loc, runnable, work, failed, found, returns } :=
  hi.keeps (.of_queues (.set (.refl _) hk ⟨hcompPoll, hdone, fun h => .inl (hps ▸ h), hwaker⟩ rfl)
    rfl rfl rfl (fun _ h => h) hrun) hphase

end

/-! ## The device and the kernel -/

/-- Nothing happens to queue `k` for which it would go unwatched. -/
structure Tended (s s' : ParkThread) (k : Nat) (q q' : ProbedQueue) : Prop
    extends SamePoll s' k q q' where
  staged : q'.staged = q.staged
  poll : q'.poll = q.poll
  idle : q'.idle = q.idle
  watched : k ∉ s.runnable → s.Watched q → s'.Watched q'
  armed : q.armed = true ∨ q.cq ≠ [] → q'.armed = true ∨ q'.cq ≠ []
  submitted : q.pollState ≠ .unsubmitted → q'.pollState ≠ .unsubmitted

/-- What the device and the kernel can do: completions come. -/
structure Env (s s' : ParkThread) : Prop extends Keeps (Tended s s') s s' where
  loc : s'.loc = s.loc
  runs : s'.runnable = s.runnable
  work : s'.work = s.work
  failed : s'.failed = s.failed
  found : s'.found = s.found

theorem Tended.resting (h : Tended s s' k q q') (hr : k ∉ s.runnable) (hq : s.Resting q) :
    s'.Resting q' := by
  rcases hq with hw | ⟨h1, h2, h3⟩
  · exact .inl (h.watched hr hw)
  · exact .inr ⟨h.staged.trans h1, h.poll.trans h2, h.idle.trans h3⟩

theorem Env.pass (h : Env s s') {todo : List Nat} (hp : s.Pass todo st) : s'.Pass todo st := by
  refine ⟨?_, hp.nodup, ?_, ?_, ?_, ?_, ?_, ?_, ?_⟩
  · rw [h.probes]
    exact hp.sub
  · rw [h.runs]
    exact hp.asleep
  · intro k q' hk' hr hh
    obtain ⟨q, hk, ht⟩ := h.queues.back hk'
    rw [ht.staged]
    exact hp.staged k q hk (h.runs ▸ hr) hh
  · rw [h.work, h.failed, h.runs]
    exact hp.work
  · rw [h.found, h.runs, hp.found]
    refine or_congr_right (and_congr_right fun _ => ⟨?_, ?_⟩)
    · rintro ⟨k, q, hh, hk, hne⟩
      obtain ⟨q', hk', ht⟩ := h.queues.forth hk
      exact ⟨k, q', hh, hk', ht.staged ▸ hne⟩
    · rintro ⟨k, q', hh, hk', hne⟩
      obtain ⟨q, hk, ht⟩ := h.queues.back hk'
      exact ⟨k, q, hh, hk, ht.staged ▸ hne⟩
  · intro hst k q' hh hk'
    obtain ⟨q, hk, ht⟩ := h.queues.back hk'
    exact ht.armed (hp.armed hst k q hh hk)
  · intro hst k q' hh hk'
    obtain ⟨q, hk, ht⟩ := h.queues.back hk'
    rcases hp.finish hst k q hh hk with hne | hrest
    · exact .inl (ht.staged ▸ hne)
    · exact .inr (ht.resting (hp.asleep k (List.mem_of_head? hh)) hrest)
  · intro hf k q' hk' htodo hr
    obtain ⟨q, hk, ht⟩ := h.queues.back hk'
    have hr : k ∉ s.runnable := h.runs ▸ hr
    exact ht.resting hr (hp.rested (h.failed ▸ hf) k q hk htodo hr)

theorem Env.phase (h : Env s s') {loc : Loc} (hp : s.Phase loc) : s'.Phase loc := by
  -- a property of every queue that what happens to one keeps
  have hall : ∀ {P P' : ProbedQueue → Prop}, (∀ k q, s.queues k = some q → P q) →
      (∀ k q q', Tended s s' k q q' → P q → P' q') → ∀ k q', s'.queues k = some q' → P' q' := by
    intro P P' hP hPP k q' hk'
    obtain ⟨q, hk, ht⟩ := h.queues.back hk'
    exact hPP k q q' ht (hP k q hk)
  have hout : s.runnable = [] → ∀ k, k ∉ s.runnable := fun h k => by simp [h]
  cases loc with
  | tasks =>
    intro k q' hk' hr
    obtain ⟨q, hk, ht⟩ := h.queues.back hk'
    exact ht.staged.trans (hp k q hk (h.runs ▸ hr))
  | top => exact ⟨h.runs.trans hp.1, hall hp.2 fun _ _ _ ht hst => ht.staged.trans hst⟩
  | waited => exact ⟨h.runs.trans hp.1, hall hp.2 fun _ _ _ ht hst => ht.staged.trans hst⟩
  | probing todo st => exact h.pass hp
  | spinCheck =>
    obtain ⟨hrun, hwork, hrest⟩ := hp
    exact ⟨h.runs.trans hrun, h.work.trans hwork, hall hrest fun k _ _ ht => ht.resting (hout hrun k)⟩
  | wait =>
    obtain ⟨hrun, hw⟩ := hp
    exact ⟨h.runs.trans hrun, hall hw fun k _ _ ht => ht.watched (hout hrun k)⟩
  | sleeping =>
    obtain ⟨hrun, hw⟩ := hp
    exact ⟨h.runs.trans hrun, hall hw fun k _ _ ht h =>
      ⟨ht.watched (hout hrun k) h.1, ht.submitted h.2⟩⟩
  | dead => trivial

theorem Inv.env (hi : Inv s) (h : Env s s') : Inv s' := by
  refine hi.keeps { h.toKeeps with queues := ?_ } (by rw [h.loc]; exact h.phase hi.phase)
  exact h.queues.mono fun _ _ _ ht => ht.toSamePoll

theorem Watched.ring (h : s.Watched q) (hring : ∀ c ∈ s.ring, c ∈ s'.ring) : s'.Watched q := by
  refine ⟨h.1, h.2.imp_right fun hs => ?_⟩
  exact hs.imp_left fun ⟨c, hc, hkey⟩ => ⟨c, hring c hc, hkey⟩

theorem Tended.refl (hring : ∀ c ∈ s.ring, c ∈ s'.ring) (k : Nat) (q : ProbedQueue) :
    Tended s s' k q q :=
  { SamePoll.refl s' k q with
    staged := rfl, poll := rfl, idle := rfl, watched := fun _ hw => hw.ring hring
    armed := fun h => h, submitted := fun h => h }

theorem mem_post (s : ParkThread) (cqes : List Cqe) : ∀ c ∈ s.ring, c ∈ (s.post cqes).ring :=
  fun _ hc => List.mem_append_left _ hc

theorem env_post (s : ParkThread) (cqes : List Cqe) : Env s (s.post cqes) where
  toKeeps := .of_queues (.same (.refl (mem_post s cqes)) rfl) rfl rfl rfl (mem_post s cqes) fun _ h => h
  loc := rfl
  runs := rfl
  work := rfl
  failed := rfl
  found := rfl

theorem env_setQueue (hk : s.queues k = some q) {cqes : List Cqe}
    (ht : Tended s ((s.setQueue k q').post cqes) k q q') : Env s ((s.setQueue k q').post cqes) where
  toKeeps := by
    have hring : ∀ c ∈ s.ring, c ∈ ((s.setQueue k q').post cqes).ring := mem_post _ cqes
    exact .of_queues (.set (.refl hring) hk ht rfl) rfl rfl rfl hring fun _ h => h
  loc := rfl
  runs := rfl
  work := rfl
  failed := rfl
  found := rfl

theorem Inv.ended_in_ring (hi : Inv s) (hk : s.queues k = some q) (hr : k ∉ s.runnable)
    (hend : q.pollState = .ended) : ∃ c ∈ s.ring, c.key = some q.compPoll := by
  have hok := hi.queues k q hk
  obtain ⟨hdone, -, e, he, -, hterm⟩ := hok.pending hr
  obtain ⟨e', he', -, hring⟩ := hok.entry hdone
  obtain rfl := Option.some.inj (he.symm.trans he')
  rcases hring hend with ht | ⟨c, hc, hkey, -⟩
  · rw [hterm] at ht
    cases ht
  · exact ⟨c, hc, hkey⟩

/-- **A completion arrives**: what was watched is watched, since an armed CQ tells of it. -/
theorem Inv.env_arrive (hi : Inv s) (hk : s.queues k = some q) (wc : Nat × Nat) :
    Env s ((s.setQueue k (q.arrive wc)).post
      (if q.armed ∧ q.pollState = .armed then [q.readable] else [])) := by
  refine env_setQueue hk ⟨⟨rfl, rfl, .inl, fun _ => rfl⟩, rfl, rfl, rfl, ?_, ?_, fun h => h⟩
  · rintro hr ⟨hst, hw⟩
    refine ⟨hst, .inr ?_⟩
    rcases hw with ⟨harm, -⟩ | ⟨c, hc, hkey⟩ | ⟨hun, hev⟩
    · cases hps : q.pollState with
      | armed =>
        refine .inl ⟨q.readable, ?_, rfl⟩
        show q.readable ∈ s.ring ++ _
        simp [harm]
      | unsubmitted =>
        refine .inr ⟨hps, ?_⟩
        show 0 < if q.armed = true then q.events + 1 else q.events
        rw [if_pos harm]
        exact Nat.succ_pos _
      | ended =>
        obtain ⟨c, hc, hkey⟩ := hi.ended_in_ring hk hr hps
        exact .inl ⟨c, List.mem_append_left _ hc, hkey⟩
    · exact .inl ⟨c, List.mem_append_left _ hc, hkey⟩
    · refine .inr ⟨hun, ?_⟩
      show 0 < if q.armed = true then q.events + 1 else q.events
      split <;> omega
  · intro _
    exact .inr (by simp [ProbedQueue.arrive])

theorem env_pollEnds (hk : s.queues k = some q) (result : Int) :
    Env s ((s.setQueue k { q with pollState := .ended }).post
      [{ key := some q.compPoll, result := { result, more := false } }]) := by
  have hmem : ({ key := some q.compPoll, result := { result, more := false } } : Cqe) ∈
      ((s.setQueue k { q with pollState := .ended }).post
        [{ key := some q.compPoll, result := { result, more := false } }]).ring :=
    List.mem_append_right _ (List.mem_singleton_self _)
  refine env_setQueue hk ⟨⟨rfl, rfl, fun _ => .inr ⟨_, hmem, rfl, rfl⟩, fun _ => rfl⟩, rfl, rfl, rfl,
    fun _ hw => ⟨hw.1, .inr (.inl ⟨_, hmem, rfl⟩)⟩, fun h => h, fun _ h => nomatch h⟩

theorem submitted_pollState (q : ProbedQueue) : q.submitted.pollState ≠ .unsubmitted := by
  simp only [ProbedQueue.submitted]
  split <;> simp_all

/-- Submitting a poll whose channel is readable reports so. -/
theorem Inv.env_submitAll (hi : Inv s) : Env s s.submitAll := by
  have hring : ∀ c ∈ s.ring, c ∈ s.submitAll.ring := fun _ hc => List.mem_append_left _ hc
  have hended : ∀ {q : ProbedQueue}, q.submitted.pollState = .ended → q.pollState = .ended := by
    intro q h
    simp only [ProbedQueue.submitted] at h
    split at h
    · cases h
    · exact h
  refine ⟨.of_queues (.map rfl fun k q hk => ?_) rfl rfl rfl hring fun _ h => h, rfl, rfl, rfl, rfl, rfl⟩
  refine ⟨⟨rfl, rfl, fun h => .inl (hended h), fun _ => rfl⟩, rfl, rfl, rfl, fun _ hw => ⟨hw.1, ?_⟩,
    fun h => h, fun _ => submitted_pollState q⟩
  rcases hw.2 with h | ⟨c, hc, hkey⟩ | ⟨hun, hev⟩
  · exact .inl h
  · exact .inr (.inl ⟨c, hring c hc, hkey⟩)
  · refine .inr (.inl ⟨q.readable, ?_, rfl⟩)
    refine List.mem_append_right _ (List.mem_flatMap.2 ⟨k, (hi.queues k q hk).probe, ?_⟩)
    simp [hk, submitPost, hun, hev]

/-! ## Tasks -/

theorem Inv.tasks (hi : Inv s) (hloc : s.loc = .tasks) : s.Phase .tasks := hloc ▸ hi.phase

theorem Inv.setQueue (hi : Inv s) (hloc : s.loc = .tasks) (hk : s.queues k = some q)
    (hcompPoll : q'.compPoll = q.compPoll) (hdone : q'.pollDone = q.pollDone)
    (hps : q'.pollState = q.pollState) (hwaker : q'.waker = q.waker)
    (hst : k ∉ s.runnable → q'.staged = []) : Inv (s.setQueue k q') := by
  refine hi.change hk (fun _ h => h) hcompPoll hdone hps (fun _ => hwaker) ?_
  show ParkThread.Phase _ s.loc
  rw [hloc]
  intro j p hj hr
  rcases of_setQueue hj with ⟨rfl, rfl⟩ | ⟨-, hj⟩
  · exact hst hr
  · exact hi.tasks hloc j p hj hr

/-- A task's step after which queue `k` may be another one, or none; the rest is as it was. -/
theorem Inv.replaced (hi : Inv s) (hloc : s.loc = .tasks) (hloc' : s'.loc = .tasks)
    (hother : ∀ j, j ≠ k → s'.queues j = s.queues j) (hring : s'.ring = s.ring)
    (hnext : s.nextKey ≤ s'.nextKey) (hprobes : ∀ j, j ≠ k → (j ∈ s'.probes ↔ j ∈ s.probes))
    (hnodup : s'.probes.Nodup) (hprobe : k ∈ s'.probes → ∃ q, s'.queues k = some q)
    (hrun : ∀ j, j ≠ k → (j ∈ s'.runnable ↔ j ∈ s.runnable))
    (hslab : ∀ j p, j ≠ k → s.queues j = some p →
      s'.slab.entries p.compPoll = s.slab.entries p.compPoll)
    (hfresh : ∀ key, s'.nextKey ≤ key → s'.slab.entries key = none)
    (hk : ∀ q, s'.queues k = some q → QueueOk s' k q ∧ (k ∉ s'.runnable → q.staged = []) ∧
      ∀ j p, j ≠ k → s.queues j = some p → p.compPoll ≠ q.compPoll) : Inv s' := by
  have hback : ∀ {j p}, j ≠ k → s'.queues j = some p → s.queues j = some p :=
    fun hne hj => (hother _ hne).symm.trans hj
  refine ⟨fun j p hj => ?_, fun i j p r hne hp hr => ?_, fun j hj => ?_, hnodup, hfresh, ?_⟩
  · by_cases h : j = k
    · subst h
      exact (hk p hj).1
    · have hok := hi.queues j p (hback h hj)
      exact hok.frame hnext ((hprobes j h).2 hok.probe) (hslab j p h (hback h hj))
        (by rw [hring]; exact fun _ hc => hc) (hrun j h).2 (.refl _ j p)
  · by_cases hik : i = k
    · subst hik
      exact ((hk p hp).2.2 j r hne.symm (hback hne.symm hr)).symm
    · by_cases hjk : j = k
      · subst hjk
        exact (hk r hr).2.2 i p hik (hback hik hp)
      · exact hi.apart i j p r hne (hback hik hp) (hback hjk hr)
  · by_cases h : j = k
    · subst h
      exact hprobe hj
    · obtain ⟨p, hp⟩ := hi.probes j ((hprobes j h).1 hj)
      exact ⟨p, (hother j h).trans hp⟩
  · rw [hloc']
    intro j p hj hr
    by_cases h : j = k
    · subst h
      exact (hk p hj).2.1 hr
    · exact hi.tasks hloc j p (hback h hj) fun hr' => hr ((hrun j h).2 hr')

theorem Inv.installed (hi : Inv s) (hloc : s.loc = .tasks) (hk : s.queues k = none)
    (hkey : q.compPoll = s.nextKey) (hps : q.pollState = .unsubmitted) : Inv (s.installed k q) := by
  have hself : (s.installed k q).queues k = some q := setQueue_self s k q
  have hnot : k ∉ s.probes := fun h => by
    obtain ⟨p, hp⟩ := hi.probes k h
    cases hk.symm.trans hp
  have hlt : ∀ {j p}, s.queues j = some p → p.compPoll ≠ q.compPoll := by
    intro j p hj
    rw [hkey]
    exact Nat.ne_of_lt (hi.queues j p hj).key
  refine hi.replaced hloc hloc (fun j hne => setQueue_other s q hne) rfl (Nat.le_succ _) (fun j hne => ?_)
    (List.nodup_append.2 ⟨hi.nodup, by simp, ?_⟩) (fun _ => ⟨q, hself⟩) (fun j hne => ?_)
    (fun j p _ hj => Slab.entries_insert_of_ne _ _ (hlt hj)) (fun key hle => ?_) fun p hp => ?_
  · simp [ParkThread.installed, hne]
  · rintro j hj j' hj' rfl
    exact hnot (List.mem_singleton.1 hj' ▸ hj)
  · simp [ParkThread.installed, hne]
  · have hle : s.nextKey + 1 ≤ key := hle
    exact (Slab.entries_insert_of_ne _ _ (by omega)).trans (hi.fresh key (Nat.le_of_succ_le hle))
  · obtain rfl := Option.some.inj (hself.symm.trans hp)
    have hrun : k ∈ (s.installed k q).runnable := List.mem_cons_self ..
    refine ⟨⟨?_, List.mem_append_right _ (List.mem_singleton_self _), fun _ => ?_,
      fun hr => absurd hrun hr⟩, fun hr => absurd hrun hr, fun j p _ hj => hlt hj⟩
    · rw [hkey]
      exact Nat.lt_succ_self _
    · refine ⟨.new, Slab.entries_insert_self .., rfl, fun hend => ?_⟩
      rw [hps] at hend
      cases hend

theorem Inv.onePoll (hi : Inv s) (hloc : s.loc = .tasks) (hk : s.queues k = some q)
    {runnable : List Nat} (hkey : q'.compPoll = q.compPoll)
    (hslab : ∀ key, key ≠ q.compPoll → slab.entries key = s.slab.entries key)
    (hrun : ∀ j, j ≠ k → (j ∈ runnable ↔ j ∈ s.runnable))
    (hok : QueueOk { s.setQueue k q' with slab, runnable } k q')
    (hst : k ∉ runnable → q'.staged = []) : Inv { s.setQueue k q' with slab, runnable } := by
  refine hi.replaced hloc hloc (fun j hne => setQueue_other s q' hne) rfl (Nat.le_refl _)
    (fun _ _ => Iff.rfl) hi.nodup (fun _ => ⟨q', setQueue_self s k q'⟩) hrun
    (fun j p hne hj => hslab _ (hi.apart j k p q hne hj hk)) (fun key hle => ?_) fun p hp => ?_
  · have hlt := (hi.queues k q hk).key
    have hle : s.nextKey ≤ key := hle
    exact (hslab key (by omega)).trans (hi.fresh key hle)
  · obtain rfl := Option.some.inj ((setQueue_self s k q').symm.trans hp)
    exact ⟨hok, hst, fun j p hne hj => hkey ▸ hi.apart j k p q hne hj hk⟩

theorem running_eq_some (h : s.running k = some q) :
    s.loc = .tasks ∧ k ∈ s.runnable ∧ s.queues k = some q := by
  obtain ⟨hrun, h⟩ := Option.ite_none_right_eq_some.1 h
  exact ⟨hrun.1, hrun.2, h⟩

theorem Inv.acknowledge (hi : Inv s) (hk : s.running k = some q) {r : CqeResult} {pollDone : Bool}
    (hdone : q.pollDone = false)
    (h : s.slab.pollNext q.compPoll k = some (.ready r, pollDone, slab)) :
    Inv { s.setQueue k { q with events := 0, pollDone } with slab } := by
  obtain ⟨hloc, hrun, hk⟩ := running_eq_some hk
  have hok := hi.queues k q hk
  refine hi.onePoll hloc hk rfl (fun key hne => Slab.entries_pollNext_of_ne h hne)
    (fun _ _ => Iff.rfl) ⟨hok.key, hok.probe, ?_, fun hr => absurd hrun hr⟩ fun hr => absurd hrun hr
  intro hd
  obtain ⟨e, he, hrest⟩ := Slab.pollNext_ready h
  obtain ⟨rest, rfl⟩ := hrest hd
  obtain ⟨e', he', ho, hend⟩ := hok.entry hdone
  obtain rfl := Option.some.inj (he.symm.trans he')
  exact ⟨_, Slab.entries_put_self .., ho, hend⟩

theorem Inv.pend (hi : Inv s) (hk : s.running k = some q) {done : Bool} (hdone : q.pollDone = false)
    (hst : q.staged = []) (h : s.slab.pollNext q.compPoll k = some (.pending, done, slab)) :
    Inv { s.setQueue k { q with waker := true } with
      slab, runnable := s.runnable.filter (· ≠ k) } := by
  obtain ⟨hloc, -, hk⟩ := running_eq_some hk
  have hok := hi.queues k q hk
  obtain ⟨e, he, -, hterm, rfl⟩ := Slab.pollNext_pending h
  obtain ⟨e', he', ho, hend⟩ := hok.entry hdone
  obtain rfl := Option.some.inj (he.symm.trans he')
  refine hi.onePoll hloc hk rfl (fun key hne => Slab.entries_put_of_ne _ _ hne) ?_
    ⟨hok.key, hok.probe, ?_, ?_⟩ fun _ => hst
  · intro j hne
    simp [hne]
  · exact fun _ => ⟨_, Slab.entries_put_self .., ho, hend⟩
  · exact fun _ => ⟨hdone, rfl, _, Slab.entries_put_self .., rfl, hterm⟩

theorem Inv.left (hi : Inv s) (hk : s.running k = some q) : Inv (s.left k) := by
  obtain ⟨hloc, -, -⟩ := running_eq_some hk
  refine hi.replaced hloc hloc (k := k) (fun j hne => by simp [ParkThread.left, hne]) rfl (Nat.le_refl _)
    (fun j hne => List.mem_erase_of_ne hne) (hi.nodup.erase k)
    (fun h => absurd h hi.nodup.not_mem_erase) (fun _ _ => Iff.rfl) (fun _ _ _ _ => rfl) hi.fresh ?_
  intro p hp
  simp [ParkThread.left] at hp

theorem Inv.otherOp (hi : Inv s) (hloc : s.loc = .tasks) {key nextKey : Nat}
    (hkey : ∀ k q, s.queues k = some q → q.compPoll ≠ key) (hnext : s.nextKey ≤ nextKey)
    (hlt : key < nextKey ∨ slab.entries key = none)
    (hslab : ∀ key', key' ≠ key → slab.entries key' = s.slab.entries key') :
    Inv { s with slab, nextKey } := by
  refine hi.keeps ⟨hnext, rfl, fun k q hk => hslab _ (hkey k q hk), ?_, fun _ hc => hc,
    fun _ _ _ hr => hr, .same (.refl _) rfl⟩ ?_
  · intro key' hle hnone
    have hle : nextKey ≤ key' := hle
    by_cases h : key' = key
    · subst h
      exact hlt.resolve_left (by omega)
    · exact (hslab key' h).trans hnone
  · show ParkThread.Phase _ s.loc
    rw [hloc]
    exact hi.tasks hloc

/-! ## The hook -/

inductive Returned (s : ParkThread) : ParkAction → ParkThread → Prop where
  | no {a : ParkAction} {s' : ParkThread} (same : s'.returns = s.returns) (ok : s.FailureFindsWork a) :
      Returned s a s'
  | reaped {t s' : ParkThread} (ends : s' = t.finishPark) (returns : t.returns = s.returns)
      (woken : t.runnable ≠ []) : Returned s .reap s'
  | pass {s' : ParkThread} {st : ProbeStep} (loc : s.loc = .probing [] st) (work : s.work = true)
      (ends : s' = s.finishPark) : Returned s .endPass s'
  | idle {grace : Nat → Bool} {entered : Bool} {s' : ParkThread} (loc : s.loc = .spinCheck)
      (empty : s.slab.isEmpty = true) (ends : s' = s.finishPark) :
      Returned s (.spinOrSleep grace entered) s'

section

variable {loc : Loc} {returns : List Return}

abbrev drained (s : ParkThread) (loc : Loc) (returns : List Return) : ParkThread :=
  { s with
    slab := (s.slab.reap s.ring).1, ring := [], runnable := s.runnable ++ (s.slab.reap s.ring).2
    loc, returns }

theorem QueueOk.drained (hok : QueueOk s k q) : QueueOk (s.drained loc returns) k q := by
  refine ⟨hok.key, hok.probe, fun hdone => ?_, fun hr => ?_⟩
  · obtain ⟨e, he, ho, hend⟩ := hok.entry hdone
    obtain ⟨e', he', ho', hterm⟩ := Slab.reap_entry (l := s.ring) he ho
    exact ⟨e', he', ho', fun h => .inl (hterm.2 (hend h))⟩
  · rw [List.mem_append, not_or] at hr
    obtain ⟨hdone, hw, e, he, hew, hterm⟩ := hok.pending hr.1
    obtain ⟨e', he', ho, -⟩ := hok.entry hdone
    obtain rfl := Option.some.inj (he.symm.trans he')
    exact ⟨hdone, hw, e, Slab.reap_quiet he ho hew hr.2, hew, hterm⟩

theorem Inv.drained (hi : Inv s) (hphase : (s.drained loc returns).Phase loc) :
    Inv (s.drained loc returns) where
  queues := fun k q hk => (hi.queues k q hk).drained
  apart := hi.apart
  probes := hi.probes
  nodup := hi.nodup
  fresh := fun key hle => Slab.entries_reap_none (hi.fresh key hle)
  phase := hphase

end

theorem Inv.beginPass (hi : Inv s) (hrun : s.runnable = [])
    (hst : ∀ k q, s.queues k = some q → q.staged = []) :
    s.beginPass.Phase s.beginPass.loc := by
  refine ⟨fun _ hk => hk, hi.nodup, ?_, fun k q hk _ _ => hst k q hk, ?_, ?_, ?_, ?_, ?_⟩
  · intro k _ hk
    rw [show s.beginPass.runnable = [] from hrun] at hk
    cases hk
  · simp [ParkThread.beginPass, hrun]
  · simp [ParkThread.beginPass, hrun]
  · exact fun h => nomatch h
  · exact fun h => nomatch h
  · exact fun _ k q hk hk' _ => absurd (hi.queues k q hk).probe hk'

theorem Inv.reapAll (hi : Inv s) {next : ParkThread → ParkThread} (hrun : s.runnable = [])
    (hst : ∀ k q, s.queues k = some q → q.staged = [])
    (hnext : ∀ t : ParkThread, Inv { t with loc := .top } → Inv (next t) ∧ (next t).returns = t.returns) :
    Inv (s.reapAll next) ∧ Returned s .reap (s.reapAll next) := by
  unfold ParkThread.reapAll
  dsimp only
  split
  · rename_i hempty
    have htop : Inv (s.drained .top s.returns) := by
      refine hi.drained ⟨?_, hst⟩
      show s.runnable ++ _ = []
      rw [hrun, List.isEmpty_iff.1 hempty]
      rfl
    exact ⟨(hnext _ htop).1, .no (hnext _ htop).2 trivial⟩
  · rename_i hne
    refine ⟨hi.drained fun k q hk _ => hst k q hk, .reaped rfl rfl fun h => ?_⟩
    exact hne (List.isEmpty_iff.2 (List.append_eq_nil_iff.1 h).2)

theorem Inv.pass (hi : Inv s) {todo : List Nat} (hloc : s.loc = .probing todo st) :
    s.Pass todo st := by
  have h := hi.phase
  rw [hloc] at h
  exact h

section

variable {rest : List Nat} {st st' : ProbeStep} {loc : Loc}

theorem Pass.turn {found : Bool} (hp : s.Pass (k :: rest) st) (hne : st ≠ .finish)
    (hstaged : st' ≠ .finish → q'.staged = [])
    (hfound : found = true ↔ s.found = true ∨ st' = .finish ∧ q'.staged ≠ [])
    (harmed : st' = .redrain → q'.armed = true ∨ q'.cq ≠ [])
    (hfinish : st' = .finish → q'.staged ≠ [] ∨ s.Resting q') :
    ({ s.setQueue k q' with loc, found } : ParkThread).Pass (k :: rest) st' := by
  have hself : ∀ {j p}, (k :: rest).head? = some j → (s.setQueue k q').queues j = some p → p = q' := by
    intro j p hj hp
    obtain rfl := Option.some.inj hj
    exact Option.some.inj (hp.symm.trans (setQueue_self s k q'))
  refine ⟨hp.sub, hp.nodup, hp.asleep, ?_, hp.work, ?_, ?_, ?_, ?_⟩
  · intro j p hj hr hh
    rcases of_setQueue hj with ⟨rfl, rfl⟩ | ⟨-, hj⟩
    · exact hstaged fun h => hh h rfl
    · exact hp.staged j p hj hr fun h => absurd h hne
  · refine hfound.trans (or_congr (hp.found.trans ?_) (and_congr_right fun _ => ⟨fun h => ?_, ?_⟩))
    · simp [hne, setQueue]
    · exact ⟨k, q', rfl, setQueue_self s k q', h⟩
    · rintro ⟨j, p, hj, hp, h⟩
      exact hself hj hp ▸ h
  · exact fun h j p hj hp => hself hj hp ▸ harmed h
  · exact fun h j p hj hp => hself hj hp ▸ hfinish h
  · intro hf j p hj htodo hr
    rcases of_setQueue hj with ⟨rfl, -⟩ | ⟨-, hj⟩
    · exact absurd (List.mem_cons_self ..) htodo
    · exact hp.rested hf j p hj htodo hr

theorem Pass.next {queues : Nat → Option ProbedQueue} {runnable : List Nat} {work failed : Bool}
    (hp : s.Pass (k :: rest) st) (hqueues : ∀ j, j ≠ k → queues j = s.queues j)
    (hrun : ∀ j, j ≠ k → (j ∈ runnable ↔ j ∈ s.runnable))
    (hk : ∀ p, queues k = some p → k ∉ runnable → p.staged = [] ∧ (failed = false → s.Resting p))
    (hfailed : failed = false → s.failed = false) (hwork : work = true ↔ failed = true ∨ runnable ≠ [])
    (hfound : s.found = true ↔ runnable ≠ []) :
    ({ s with queues, runnable, work, failed, loc } : ParkThread).Pass rest .drain := by
  obtain ⟨hnot, hnodup⟩ := List.nodup_cons.1 hp.nodup
  have hne : ∀ {j}, j ∈ rest → j ≠ k := fun hj h => hnot (h ▸ hj)
  refine ⟨fun j hj => hp.sub j (List.mem_cons_of_mem _ hj), hnodup, ?_, ?_, hwork, ?_,
    (fun h => nomatch h), (fun h => nomatch h), ?_⟩
  · exact fun j hj hr => hp.asleep j (List.mem_cons_of_mem _ hj) ((hrun j (hne hj)).1 hr)
  · intro j p hj hr _
    by_cases h : j = k
    · subst h
      exact (hk p hj hr).1
    · exact hp.staged j p ((hqueues j h).symm.trans hj) (fun hr' => hr ((hrun j h).2 hr'))
        fun _ hh => h (Option.some.inj hh).symm
  · refine hfound.trans (Iff.symm (or_iff_left ?_))
    rintro ⟨h, -⟩
    cases h
  · intro hf j p hj htodo hr
    by_cases h : j = k
    · subst h
      exact (hk p hj hr).2 hf
    · exact hp.rested (hfailed hf) j p ((hqueues j h).symm.trans hj) (by simp [h, htodo])
        fun hr' => hr ((hrun j h).2 hr')

theorem Pass.head_staged (hp : s.Pass (k :: rest) st) (hne : st ≠ .finish) (hk : s.queues k = some q) :
    q.staged = [] :=
  hp.staged k q hk (hp.asleep k (List.mem_cons_self ..)) fun h => absurd h hne

theorem Inv.drainQueue (hi : Inv s) (hloc : s.loc = .probing (k :: rest) st) (hne : st ≠ .finish)
    (hk : s.queues k = some q) (hst' : st' ≠ .redrain) (hstaged : st' ≠ .finish → q.cq = [])
    (hfinish : st' = .finish → q.cq = [] → s.Resting q.drain) :
    Inv { s.drainQueue k q with loc := .probing (k :: rest) st' } := by
  have hp := hi.pass hloc
  have hdrain : q.drain.staged = q.cq := by simp [ProbedQueue.drain, hp.head_staged hne hk]
  refine hi.change hk (fun _ h => h) rfl rfl rfl (fun _ => rfl) (hp.turn hne ?_ ?_ ?_ ?_)
  · rw [hdrain]
    exact hstaged
  · show (s.found || !q.cq.isEmpty) = true ↔ _
    rw [hdrain, Bool.or_eq_true]
    refine or_congr_right ⟨fun h => ?_, fun h => by simpa using h.2⟩
    have hcq : q.cq ≠ [] := by simpa using h
    exact ⟨not_not.1 fun h' => hcq (hstaged h'), hcq⟩
  · exact fun h => absurd h hst'
  · intro h
    rw [hdrain]
    by_cases hcq : q.cq = []
    · exact .inr (hfinish h hcq)
    · exact .inl hcq

theorem Inv.probeDrain (hi : Inv s) (hloc : s.loc = .probing (k :: rest) .drain)
    (hk : s.queues k = some q) :
    Inv { s.drainQueue k q with
      loc := .probing (k :: rest) (if q.drain.maySleep then .arm else .finish) } := by
  have hst := (hi.pass hloc).head_staged nofun hk
  refine hi.drainQueue hloc nofun hk (by split <;> nofun) ?_ ?_
  · intro h
    have hms : q.drain.maySleep = true := by
      by_contra hms
      simp [hms] at h
    simpa [ProbedQueue.drain, hst] using (Bool.and_eq_true_iff.1 hms).1
  · intro h hcq
    have hms : ¬ q.drain.maySleep = true := fun hms => by simp [hms] at h
    have hdrain : q.drain.staged = [] := by simp [ProbedQueue.drain, hst, hcq]
    refine .inr ⟨hdrain, ?_⟩
    rw [ProbedQueue.maySleep, hdrain] at hms
    simpa [ProbedQueue.drain] using hms

theorem Inv.probeArm (hi : Inv s) (hloc : s.loc = .probing (k :: rest) .arm)
    (hk : s.queues k = some q) :
    Inv { s.setQueue k { q with armed := true } with loc := .probing (k :: rest) .redrain } := by
  have hp := hi.pass hloc
  exact hi.change hk (fun _ h => h) rfl rfl rfl (fun _ => rfl)
    (hp.turn nofun (fun _ => (hp.head_staged nofun hk : q.staged = [])) (by simp [ParkThread.setQueue])
      (fun _ => .inl rfl) nofun)

theorem Inv.probeArm_fails (hi : Inv s) (hloc : s.loc = .probing (k :: rest) .arm)
    (hk : s.queues k = some q) :
    Inv { s with failed := true, work := true, loc := .probing rest .drain } := by
  have hp := hi.pass hloc
  refine hi.move (fun _ h => h) (hp.next (fun _ _ => rfl) (fun _ _ => Iff.rfl) (fun p hkp _ => ?_) nofun
    (by simp) ?_)
  · obtain rfl := Option.some.inj (hk.symm.trans hkp)
    exact ⟨hp.head_staged nofun hk, nofun⟩
  · simpa using hp.found

theorem Inv.probeRedrain (hi : Inv s) (hloc : s.loc = .probing (k :: rest) .redrain)
    (hk : s.queues k = some q) :
    Inv { s.drainQueue k q with loc := .probing (k :: rest) .finish } := by
  have hp := hi.pass hloc
  have hst := hp.head_staged nofun hk
  refine hi.drainQueue hloc nofun hk nofun (fun h => absurd rfl h) fun _ hcq => ?_
  -- found empty after it was armed
  have harm : q.armed = true := (hp.armed rfl k q rfl hk).resolve_right fun h => h hcq
  exact .inl ⟨by simp [ProbedQueue.drain, hst, hcq], .inl ⟨harm, rfl⟩⟩

theorem Inv.probeFinish (hi : Inv s) (hloc : s.loc = .probing (k :: rest) .finish)
    (hk : s.queues k = some q) : Inv (s.finishProbe k rest q) := by
  have hp := hi.pass hloc
  unfold ParkThread.finishProbe
  split
  · -- no work: the queue rests
    rename_i hempty
    have hst : q.staged = [] := List.isEmpty_iff.1 hempty
    refine hi.move (fun _ h => h) (hp.next (fun _ _ => rfl) (fun _ _ => Iff.rfl) (fun p hkp _ => ?_)
      (fun h => h) hp.work ?_)
    · obtain rfl := Option.some.inj (hk.symm.trans hkp)
      exact ⟨hst, fun _ => (hp.finish rfl k q rfl hk).resolve_left fun h => h hst⟩
    · rw [hp.found]
      simp [hk, hst]
  · rename_i hne
    have hst : q.staged ≠ [] := fun h => hne (List.isEmpty_iff.2 h)
    have hw : q.waker = true := ((hi.queues k q hk).pending (hp.asleep k (List.mem_cons_self ..))).2.1
    have hmem : k ∈ s.runnable ++ [k] := List.mem_append_right _ (List.mem_singleton_self k)
    rw [if_pos hw]
    refine hi.change hk (fun _ h => List.mem_append_left _ h) rfl rfl rfl (fun h => absurd hmem h)
      (hp.next (fun j hne => setQueue_other s _ hne) (fun j hne => by simp [hne])
        (fun _ _ hr => absurd hmem hr) (fun h => h) (by simp) ?_)
    exact iff_of_true (hp.found.2 (.inr ⟨rfl, k, q, rfl, hk, hst⟩)) (by simp)

end

/-- The hook returns: every queue with something staged was woken. -/
theorem Inv.finishPark (hi : Inv s)
    (hst : ∀ k q, s.queues k = some q → k ∉ s.runnable → q.staged = []) : Inv s.finishPark :=
  hi.move (fun _ h => h) hst

theorem Inv.endPass (hi : Inv s) (hloc : s.loc = .probing [] st) {t : ParkThread}
    (ht : t = if s.work then s.finishPark else { s with loc := .spinCheck }) :
    Inv t ∧ Returned s .endPass t := by
  have hp := hi.pass hloc
  subst ht
  split
  · rename_i hwork
    refine ⟨hi.finishPark fun k q hk hr => ?_, .pass hloc hwork rfl⟩
    exact hp.staged k q hk hr fun _ h => nomatch h
  · rename_i hwork
    have hnone : ¬ (s.failed = true ∨ s.runnable ≠ []) := fun h => hwork (hp.work.2 h)
    rw [not_or, Bool.not_eq_true, ne_eq, not_not] at hnone
    refine ⟨hi.move (fun _ h => h) ⟨hnone.2, by simpa using hwork, fun k q hk => ?_⟩,
      .no rfl fun hf => absurd (hf.symm.trans hnone.1) (by decide)⟩
    exact hp.rested hnone.1 k q hk (List.not_mem_nil) (by simp [hnone.2])

theorem Resting.staged (h : s.Resting q) : q.staged = [] := by
  rcases h with h | h <;> exact h.1

theorem Inv.spinOrSleep (hi : Inv s) (hloc : s.loc = .spinCheck) (grace : Nat → Bool) (entered : Bool) :
    s.step (.spinOrSleep grace entered) = some s' →
      Inv s' ∧ Returned s (.spinOrSleep grace entered) s' := by
  have hphase : s.Phase .spinCheck := hloc ▸ hi.phase
  obtain ⟨hrun, hwork, hrest⟩ := hphase
  intro h
  simp only [ParkThread.step, hloc, if_true] at h
  split at h
  · obtain rfl := Option.some.inj h
    have hsub : Inv (if entered then s.submitAll else s) := by
      split
      · exact hi.env hi.env_submitAll
      · exact hi
    have hsp : (if entered then s.submitAll else s).Phase .spinCheck := by
      split
      · exact hi.env_submitAll.phase ⟨hrun, hwork, hrest⟩
      · exact ⟨hrun, hwork, hrest⟩
    refine ⟨hsub.move (fun _ h => h) ⟨hsp.1, fun k q hk => (hsp.2.2 k q hk).staged⟩, .no ?_ trivial⟩
    cases entered <;> rfl
  · rename_i hspin
    split at h
    · rename_i hempty
      obtain rfl := Option.some.inj h
      exact ⟨hi.finishPark fun k q hk _ => (hrest k q hk).staged, .idle hloc hempty rfl⟩
    · obtain rfl := Option.some.inj h
      -- a queue in poll mode with commands in flight would spin
      have hwatched : ∀ k q, s.queues k = some q → s.Watched q := by
        intro k q hk
        refine (hrest k q hk).resolve_right ?_
        rintro ⟨-, hpoll, hidle⟩
        refine hspin (List.any_eq_true.2 ⟨k, (hi.queues k q hk).probe, ?_⟩)
        simp [hk, ProbedQueue.spins, hpoll, hidle]
      exact ⟨hi.move (fun _ h => h) ⟨hrun, hwatched⟩, .no rfl trivial⟩

/-- **Every step keeps the invariant**, and ends at most one call of the hook. -/
theorem Inv.step (hi : Inv s) (h : s.step a = some s') : Inv s' ∧ Returned s a s' := by
  cases a with
  | arrive k wc =>
    obtain ⟨q, hk, h⟩ := Option.bind_eq_some_iff.1 h
    obtain rfl := Option.some.inj h
    exact ⟨hi.env (hi.env_arrive hk wc), .no rfl trivial⟩
  | pollEnds k result =>
    obtain ⟨q, hk, h⟩ := Option.bind_eq_some_iff.1 h
    obtain ⟨-, rfl⟩ := of_guard h
    exact ⟨hi.env (env_pollEnds hk result), .no rfl trivial⟩
  | complete key result =>
    obtain ⟨-, rfl⟩ := of_guard h
    exact ⟨hi.env (env_post s _), .no rfl trivial⟩
  | cancelled result =>
    obtain rfl := Option.some.inj h
    exact ⟨hi.env (env_post s _), .no rfl trivial⟩
  | install k poll idle cq armed events =>
    obtain ⟨hg, rfl⟩ := of_guard h
    exact ⟨hi.installed hg.1 hg.2 rfl rfl, .no rfl trivial⟩
  | acknowledge k =>
    obtain ⟨q, hk, h⟩ := Option.bind_eq_some_iff.1 h
    split at h
    · cases h
    · rename_i hdone
      obtain ⟨⟨r, done, slab⟩, hpoll, h⟩ := Option.bind_eq_some_iff.1 h
      cases r with
      | ready r =>
        obtain rfl := Option.some.inj h
        exact ⟨hi.acknowledge hk (by simpa using hdone) hpoll, .no rfl trivial⟩
      | pending | ended => cases h
  | processCqes k | backstop k =>
    obtain ⟨q, hk, h⟩ := Option.bind_eq_some_iff.1 h
    obtain rfl := Option.some.inj h
    obtain ⟨hloc, -, hk⟩ := running_eq_some hk
    exact ⟨hi.setQueue hloc hk rfl rfl rfl rfl fun _ => rfl, .no rfl trivial⟩
  | setIdle k idle =>
    obtain ⟨q, hk, h⟩ := Option.bind_eq_some_iff.1 h
    obtain ⟨hloc, rfl⟩ := of_guard h
    exact ⟨hi.setQueue hloc hk rfl rfl rfl rfl (hi.tasks hloc k q hk), .no rfl trivial⟩
  | pend k =>
    obtain ⟨q, hk, h⟩ := Option.bind_eq_some_iff.1 h
    split at h
    · cases h
    · rename_i hg
      rw [not_or, Bool.not_eq_true, not_not] at hg
      obtain ⟨⟨r, done, slab⟩, hpoll, h⟩ := Option.bind_eq_some_iff.1 h
      cases r with
      | pending =>
        obtain rfl := Option.some.inj h
        exact ⟨hi.pend hk hg.1 hg.2 hpoll, .no rfl trivial⟩
      | ready r | ended => cases h
  | leave k =>
    obtain ⟨q, hk, h⟩ := Option.bind_eq_some_iff.1 h
    obtain rfl := Option.some.inj h
    exact ⟨hi.left hk, .no rfl trivial⟩
  | submit =>
    obtain ⟨hloc, rfl⟩ := of_guard h
    exact ⟨hi.otherOp hloc (fun k q hk => Nat.ne_of_lt (hi.queues k q hk).key) (Nat.le_succ _)
      (.inl (Nat.lt_succ_self _)) fun key' hne => Slab.entries_insert_of_ne _ _ hne, .no rfl trivial⟩
  | pollOp multi key task =>
    obtain ⟨hg, h⟩ := Option.ite_none_right_eq_some.1 h
    obtain ⟨r, hr, rfl⟩ := Option.map_eq_some_iff.1 h
    refine ⟨hi.otherOp hg.1 (fun _ _ hk => hi.isOther hg.2 hk) (Nat.le_refl _) (.inl ?_)
      fun key' hne => ?_, .no rfl trivial⟩
    · -- there is an operation under that key
      by_contra hle
      have hnone := hi.fresh key (Nat.not_lt.1 hle)
      cases multi <;> simp [Slab.pollNext, Slab.pollSingle, hnone] at hr
    · cases multi with
      | true => exact Slab.entries_pollNext_of_ne hr hne
      | false => exact Slab.entries_pollSingle_of_ne hr hne
  | dropOp key =>
    obtain ⟨hg, rfl⟩ := of_guard h
    refine ⟨hi.otherOp hg.1 (fun _ _ hk => hi.isOther hg.2 hk) (Nat.le_refl _) ?_
      fun key' hne => Slab.entries_orphan_of_ne _ hne, .no rfl trivial⟩
    rcases Nat.lt_or_ge key s.nextKey with hlt | hle
    · exact .inl hlt
    · have hnone := hi.fresh key hle
      exact .inr (by simp [Slab.orphan, hnone])
  | wake task =>
    obtain ⟨hloc, rfl⟩ := of_guard h
    refine ⟨hi.move (fun _ hj => List.mem_cons_of_mem _ hj) ?_, .no rfl trivial⟩
    show ParkThread.Phase _ s.loc
    rw [hloc]
    exact fun k q hk hr => hi.tasks hloc k q hk fun hr' => hr (List.mem_cons_of_mem _ hr')
  | rest task =>
    obtain ⟨hg, rfl⟩ := of_guard h
    have hkept : ∀ k q, s.queues k = some q → k ∈ s.runnable → k ∈ s.runnable.filter (· ≠ task) := by
      intro k q hk hr
      refine List.mem_filter.2 ⟨hr, ?_⟩
      simp only [decide_eq_true_eq]
      rintro rfl
      cases hg.2.symm.trans hk
    refine ⟨hi.keeps ⟨Nat.le_refl _, rfl, fun _ _ _ => rfl, fun _ _ h => h, fun _ h => h, hkept,
      .same (.refl _) rfl⟩ ?_, .no rfl trivial⟩
    show ParkThread.Phase _ s.loc
    rw [hg.1]
    exact fun k q hk hr => hi.tasks hg.1 k q hk fun hr' => hr (hkept k q hk hr')
  | flush =>
    obtain ⟨-, rfl⟩ := of_guard h
    exact ⟨hi.env hi.env_submitAll, .no rfl trivial⟩
  | park =>
    obtain ⟨hg, rfl⟩ := of_guard h
    exact ⟨hi.move (fun _ h => h) ⟨hg.2, fun k q hk => hi.tasks hg.1 k q hk (by simp [hg.2])⟩,
      .no rfl trivial⟩
  | reap =>
    simp only [ParkThread.step] at h
    split at h
    · rename_i hloc
      obtain rfl := Option.some.inj h
      have hphase : s.Phase .top := hloc ▸ hi.phase
      refine hi.reapAll hphase.1 hphase.2 fun t ht => ?_
      obtain ⟨htrun, htst⟩ := ht.phase
      exact ⟨ht.move (fun _ h => h) (ht.beginPass htrun htst), rfl⟩
    · rename_i hloc
      obtain rfl := Option.some.inj h
      have hphase : s.Phase .waited := hloc ▸ hi.phase
      exact hi.reapAll hphase.1 hphase.2 fun _ ht => ⟨ht, rfl⟩
    · cases h
  | probeDrain =>
    simp only [ParkThread.step] at h
    split at h
    · rename_i hloc
      obtain ⟨q, hk, rfl⟩ := Option.map_eq_some_iff.1 h
      exact ⟨hi.probeDrain hloc hk, .no rfl trivial⟩
    · cases h
  | probeArm ok =>
    simp only [ParkThread.step] at h
    split at h
    · rename_i hloc
      obtain ⟨q, hk, rfl⟩ := Option.map_eq_some_iff.1 h
      cases ok with
      | true => exact ⟨hi.probeArm hloc hk, .no rfl trivial⟩
      | false => exact ⟨hi.probeArm_fails hloc hk, .no rfl trivial⟩
    · cases h
  | probeRedrain =>
    simp only [ParkThread.step] at h
    split at h
    · rename_i hloc
      obtain ⟨q, hk, rfl⟩ := Option.map_eq_some_iff.1 h
      exact ⟨hi.probeRedrain hloc hk, .no rfl trivial⟩
    · cases h
  | probeFinish =>
    simp only [ParkThread.step] at h
    split at h
    · rename_i hloc
      obtain ⟨q, hk, rfl⟩ := Option.map_eq_some_iff.1 h
      refine ⟨hi.probeFinish hloc hk, .no ?_ trivial⟩
      unfold finishProbe
      split
      · rfl
      · split <;> rfl
    · cases h
  | endPass =>
    simp only [ParkThread.step] at h
    split at h
    · rename_i hloc
      exact hi.endPass hloc (Option.some.inj h).symm
    · cases h
  | spinOrSleep grace entered =>
    exact hi.spinOrSleep (Option.ite_none_right_eq_some.1 h).1 grace entered h
  | enter =>
    obtain ⟨hloc, rfl⟩ := of_guard h
    have hphase : s.submitAll.Phase .wait := hi.env_submitAll.phase (hloc ▸ hi.phase)
    refine ⟨(hi.env hi.env_submitAll).move (fun _ h => h)
      ⟨hphase.1, fun k q hk => ⟨hphase.2 k q hk, ?_⟩⟩, .no rfl trivial⟩
    obtain ⟨q, -, rfl⟩ := Option.map_eq_some_iff.1 hk
    exact submitted_pollState q
  | enterFails fatal =>
    obtain ⟨hloc, rfl⟩ := of_guard h
    have hphase : s.Phase .wait := hloc ▸ hi.phase
    refine ⟨hi.move (fun _ h => h) ?_, .no rfl trivial⟩
    cases fatal with
    | true => trivial
    | false => exact ⟨hphase.1, fun k q hk => (hphase.2 k q hk).1⟩
  | wakeUp interrupted =>
    obtain ⟨hg, rfl⟩ := of_guard h
    have hphase : s.Phase .sleeping := hg.1 ▸ hi.phase
    exact ⟨hi.move (fun _ h => h) ⟨hphase.1, fun k q hk => (hphase.2 k q hk).1.1⟩, .no rfl trivial⟩

/-! ## Returning -/

def SoundReturns (s : ParkThread) : Prop := ∀ r ∈ s.returns, SoundReturn r

theorem soundReturns_finishPark :
    s.finishPark.SoundReturns ↔ s.SoundReturns ∧
      SoundReturn { woken := s.runnable, ops := s.slab.len, work := s.work } := by
  simp [SoundReturns, finishPark, or_imp, forall_and]

theorem SoundReturns.congr (h : s'.returns = s.returns) : s'.SoundReturns ↔ s.SoundReturns := by
  rw [SoundReturns, h]
  rfl

/-- A pass that reported work woke a task, if a completion was found. -/
theorem Inv.pass_woken (hi : Inv s) (hloc : s.loc = .probing [] st) :
    s.found = true ↔ s.runnable ≠ [] := by
  rw [(hi.pass hloc).found]
  simp

/-- A pass that fails to arm a CQ and finds nothing ends the hook with no task woken. -/
theorem Inv.soundReturns_step (hi : Inv s) (h : s.step a = some s') :
    s'.SoundReturns ↔ s.SoundReturns ∧ s.FailureFindsWork a := by
  cases (hi.step h).2 with
  | no same ok => exact (SoundReturns.congr same).trans (and_iff_left ok).symm
  | reaped ends returns woken =>
    subst ends
    rw [soundReturns_finishPark, SoundReturns.congr returns]
    exact and_congr_right fun _ => iff_of_true (.inl woken) trivial
  | pass loc work ends =>
    subst ends
    rw [soundReturns_finishPark, work]
    have hwork := (hi.pass loc).work.1 work
    have hfound := hi.pass_woken loc
    refine and_congr_right fun _ => ⟨fun hs _ => hfound.2 ?_, fun hok => .inl ?_⟩
    · exact hs.resolve_right fun h => by cases h.2
    · exact hwork.elim (fun hf => hfound.1 (hok hf)) id
  | idle loc empty ends =>
    subst ends
    have hphase : s.Phase .spinCheck := loc ▸ hi.phase
    rw [soundReturns_finishPark]
    exact and_congr_right fun _ => iff_of_true (.inr ⟨of_decide_eq_true empty, hphase.2.1⟩) trivial

end ParkThread

/-- **The park hook returns only with a task woken, or with nothing in flight and no work reported**,
exactly in the runs in which every pass that failed to arm a CQ found a completion. -/
theorem park_returns_woken_iff (as : List ParkAction) (s : ParkThread)
    (hrun : runFrom ParkThread.step .start as = some s) :
    (∀ r ∈ s.returns, r.woken ≠ [] ∨ r.ops = 0 ∧ r.work = false) ↔
      StepsOk ParkThread.step ParkThread.FailureFindsWork .start as :=
  (@runFrom_good_iff _ _ ParkThread.step ParkThread.Inv ParkThread.SoundReturns
    ParkThread.FailureFindsWork (fun hi h => ⟨(hi.step h).1, hi.soundReturns_step h⟩) as _ _ .start
    hrun).trans (and_iff_right fun _ h => nomatch h)

/-- A queue in event mode up to the point at which its probe arms its CQ. -/
def probedOnce : List ParkAction :=
  [.install 0 false true [] true 0, .pend 0, .park, .reap, .probeDrain]

theorem park_returns_woken_iff_raced :
    ∃ s, runFrom ParkThread.step .start
        (probedOnce ++ [.probeArm true, .arrive 0 (7, 0), .probeRedrain, .probeFinish, .endPass]) =
          some s ∧
      s.returns = [{ woken := [0], ops := 1, work := true }] ∧
      ∀ r ∈ s.returns, r.woken ≠ [] ∨ r.ops = 0 ∧ r.work = false := by
  have hsome : (runFrom ParkThread.step .start
      (probedOnce ++ [.probeArm true, .arrive 0 (7, 0), .probeRedrain, .probeFinish, .endPass])).map
        ParkThread.returns = some [{ woken := [0], ops := 1, work := true }] := by
    decide +kernel
  obtain ⟨s, hs, hr⟩ := Option.map_eq_some_iff.1 hsome
  exact ⟨s, hs, hr, (park_returns_woken_iff _ s hs).2 (by decide +kernel)⟩

/-- The CQ cannot be armed: the hook returns with the poll in flight and no task woken. -/
theorem failed_arm_returns_unwoken :
    ((runFrom ParkThread.step .start (probedOnce ++ [.probeArm false, .endPass])).map
      fun s => (s.loc, s.runnable, s.returns)) =
      some (.tasks, [], [{ woken := [], ops := 1, work := true }]) := by
  decide +kernel

/-- **A thread in the ring wait misses nothing.** About to wait or waiting, every queue has nothing
staged, and its CQ was armed and then found empty, as it still is, unless its poll has something to
report since. Waiting with nothing in the ring, every queue's CQ is armed and empty and its poll is
armed, and whatever completion comes next on whichever queue wakes that queue's reap loop. -/
theorem sleeps_only_watched (as : List ParkAction) (s : ParkThread)
    (hrun : runFrom ParkThread.step .start as = some s) (hloc : s.loc = .wait ∨ s.loc = .sleeping)
    (k : Nat) (q : ProbedQueue) (hk : s.queues k = some q) :
    s.Watched q ∧ (s.loc = .sleeping → s.ring = [] →
      q.staged = [] ∧ q.armed = true ∧ q.cq = [] ∧ q.pollState = .armed ∧
        ∀ wc, ∃ s', runFrom ParkThread.step s [.arrive k wc, .wakeUp false, .reap] = some s' ∧
          s'.loc = .tasks ∧ k ∈ s'.runnable) := by
  have hi : s.Inv :=
    @runFrom_invariant _ _ ParkThread.step ParkThread.Inv (fun hi h => (hi.step h).1) as _ _ .start hrun
  have hw : s.Watched q ∧ s.runnable = [] := by
    rcases hloc with hloc | hloc
    · have hphase : s.Phase .wait := hloc ▸ hi.phase
      exact ⟨hphase.2 k q hk, hphase.1⟩
    · have hphase : s.Phase .sleeping := hloc ▸ hi.phase
      exact ⟨(hphase.2 k q hk).1, hphase.1⟩
  obtain ⟨hw, hnone⟩ := hw
  refine ⟨hw, fun hsleep hring => ?_⟩
  have hphase : s.Phase .sleeping := hsleep ▸ hi.phase
  have hsub := (hphase.2 k q hk).2
  have hr : k ∉ s.runnable := by simp [hnone]
  have hps : q.pollState = .armed := by
    cases hps : q.pollState with
    | armed => rfl
    | unsubmitted => exact absurd hps hsub
    | ended =>
      obtain ⟨c, hc, -⟩ := hi.ended_in_ring hk hr hps
      rw [hring] at hc
      cases hc
  obtain ⟨harm, hcq⟩ : q.armed = true ∧ q.cq = [] := by
    rcases hw.2 with h | ⟨c, hc, -⟩ | ⟨h, -⟩
    · exact h
    · rw [hring] at hc
      cases hc
    · exact absurd h hsub
  refine ⟨hw.1, harm, hcq, hps, fun wc => ?_⟩
  -- its event is reported by the poll, whose entry has the reap loop's waker
  have hok := hi.queues k q hk
  obtain ⟨hdone, -, e, he, hew, -⟩ := hok.pending hr
  obtain ⟨e', he', ho, -⟩ := hok.entry hdone
  obtain rfl := Option.some.inj (he.symm.trans he')
  have hroute := Slab.route_self (show q.readable.key = some q.compPoll from rfl) he ho
  have hreap : (s.slab.reap [q.readable]).2 = [k] := by
    simp [Slab.reap, hroute, hew]
  let s₁ := (s.setQueue k (q.arrive wc)).post [q.readable]
  have harrive : s.step (.arrive k wc) = some s₁ := by
    simp [ParkThread.step, hk, harm, hps, s₁]
  have hring₁ : s₁.ring = [q.readable] := by simp [s₁, ParkThread.post, ParkThread.setQueue, hring]
  have hwake : s₁.step (.wakeUp false) = some { s₁ with loc := .waited } := by
    have hloc₁ : s₁.loc = .sleeping := hsleep
    simp [ParkThread.step, hloc₁, hring₁]
  have hreaped : ({ s₁ with loc := .waited } : ParkThread).step .reap =
      some (({ s₁ with loc := .waited } : ParkThread).reapAll fun s => { s with loc := .top }) := rfl
  refine ⟨_, runFrom_cons.2
    ⟨s₁, harrive, runFrom_cons.2 ⟨_, hwake, runFrom_cons.2 ⟨_, hreaped, rfl⟩⟩⟩, ?_⟩
  have hwoken : (s₁.slab.reap s₁.ring).2 = [k] := by
    rw [hring₁]
    exact hreap
  simp [ParkThread.reapAll, hwoken, ParkThread.finishPark]

/-- Two queues, one of them in poll mode, and the thread asleep: the completion of either wakes it. -/
theorem sleeps_only_watched_two_queues :
    ∃ s q, runFrom ParkThread.step .start
        [.install 0 false false [] true 0, .install 1 true true [] false 0, .pend 0, .pend 1,
        .park, .reap,
          .probeDrain, .probeArm true, .probeRedrain, .probeFinish,
          .probeDrain, .probeArm true, .probeRedrain, .probeFinish,
          .endPass, .spinOrSleep (fun _ => false) false, .enter] = some s ∧
      s.loc = .sleeping ∧ s.queues 1 = some q ∧ s.Watched q ∧ q.armed = true ∧ q.pollState = .armed := by
  have hsome : ((runFrom ParkThread.step .start
      [.install 0 false false [] true 0, .install 1 true true [] false 0, .pend 0, .pend 1, .park, .reap,
        .probeDrain, .probeArm true, .probeRedrain, .probeFinish,
        .probeDrain, .probeArm true, .probeRedrain, .probeFinish,
        .endPass, .spinOrSleep (fun _ => false) false, .enter]).map
          fun s => (s.loc, s.ring, (s.queues 1).isSome)) = some (.sleeping, [], true) := by
    decide +kernel
  obtain ⟨s, hs, h⟩ := Option.map_eq_some_iff.1 hsome
  simp only [Prod.mk.injEq] at h
  obtain ⟨hloc, hring, hq⟩ := h
  obtain ⟨q, hk⟩ := Option.isSome_iff_exists.1 hq
  obtain ⟨hw, hsleep⟩ := sleeps_only_watched _ s hs (.inr hloc) 1 q hk
  obtain ⟨-, harm, -, hps, -⟩ := hsleep hloc hring
  exact ⟨s, q, hs, hloc, hk, hw, harm, hps⟩

end Ioutgt.Rdma
