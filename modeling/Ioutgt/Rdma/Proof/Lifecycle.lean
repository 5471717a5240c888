import Ioutgt.Rdma.Lifecycle
import Ioutgt.Target.Proof.AdminQueue

/-!
# What an RDMA connection leaves behind

Only `teardown` gives anything back, so a task that returns before it keeps what it holds.

* `Executed.controller`: a command creates a controller under a vacant id, for a queue that has none,
  or leaves the set of controllers and the queue's own as they are.
* `Thread.Inv`: indices are free or with one task, a probe is there only while its loop runs, and a
  live controller's creator is still to remove it.
* `returns_clean_iff`: a task returns clean exactly from `teardown`, or before it holds anything.
-/

namespace Ioutgt.Nvme

open Ioutgt.Core Ioutgt.Rdma

variable {B : Type} {tables : Admin.Tables B} {ctx ctx' : ConnCtx (Volume B)} {r r' : Registry}

theorem Executed.controller (h : Executed tables ctx r ctx' r') :
    (controllerOf ctx' = controllerOf ctx ∧ ∀ id, r'.contains id = r.contains id) ∨
      controllerOf ctx = none ∧ ctx'.qid = ctx.qid ∧ (∃ a, ctx.role = .admin a) ∧
        ∃ c, controllerOf ctx' = some c ∧ r.contains c = false ∧ r'.contains c = true ∧
          ∀ id, id ≠ c → r'.contains id = r.contains id := by
  cases h with
  | @admin a a' role cntlid subsys =>
    left
    refine ⟨?_, fun _ => rfl⟩
    simp [controllerOf, role, cntlid]
  | @resolved a a' role fresh subsys cntlid =>
    left
    refine ⟨?_, fun _ => rfl⟩
    simp [controllerOf, role, cntlid, fresh]
  | @created a a' cmd role fresh subsys has free =>
    right
    have hpos : a'.cntlid ≠ 0 := by
      have hv := r.slice.valid
      have hmin := has.1
      omega
    refine ⟨by simp [controllerOf, role, fresh], rfl, ⟨a, role⟩, a'.cntlid, ?_, ?_, ?_, ?_⟩
    · simp [controllerOf, hpos]
    · simp [Registry.contains, free]
    · simp [Registry.contains, Registry.insert]
    · intro id hid
      simp [Registry.contains, Registry.insert, Function.update_of_ne hid]
  | @io i i' role cntlid subsys cache =>
    left
    refine ⟨?_, fun _ => rfl⟩
    simp [controllerOf, role]
  | @bound i entry role fresh live host qid max =>
    left
    refine ⟨by simp [controllerOf, role], fun id => ?_⟩
    by_cases hid : id = ctx.connectData.cntlid
    · subst hid
      simp [Registry.contains, Registry.setEntry, live]
    · simp [Registry.contains, Registry.setEntry, Function.update_of_ne hid]

end Ioutgt.Nvme

namespace Ioutgt.Rdma

open Lib Ioutgt.Core Ioutgt.Nvme Ioutgt.Target

variable {B : Type}

namespace Thread

variable {s s' : Thread B} {j k : Nat} {t t' : ConnTask B}

/-! ## The invariant -/

def unconnected : Stage → Bool
  | .build => true
  | .register => true
  | .regions => true
  | .prime => true
  | .accept => true
  | .await => true
  | .dispatch => true
  | _ => false

/-- What a task has and what the thread and the registry have of it go together. -/
structure TaskOk (s : Thread B) (k : Nat) (t : ConnTask B) : Prop where
  held : t.stage ≠ .returned → t.bufIndex = t.registered
  apart : ∀ idx, t.bufIndex = some idx → idx ∉ s.freeBufs
  fresh : unconnected t.stage = true → t.ctx = none
  early : t.stage.Underway → t.stage ≠ .reaping → t.probe = none
  probe : ∀ id, t.probe = some id →
    id < s.nextProbeId ∧ (¬ t.stage.Underway → id ∉ s.parkProbes)
  creator : t.stage.Underway → ∀ c, t.controller = some c → s.creator c = some k
  removed : t.stage = .draining → ∀ c, s.creator c ≠ some k

structure Inv (s : Thread B) : Prop where
  nodup : s.freeBufs.Nodup
  tasks : ∀ k t, s.tasks k = some t → s.TaskOk k t
  apart : ∀ j k t u idx, j ≠ k → s.tasks j = some t → s.tasks k = some u →
    t.bufIndex = some idx → u.bufIndex ≠ some idx
  probes : ∀ id ∈ s.parkProbes, id < s.nextProbeId
  creators : ∀ c k, s.creator c = some k →
    s.registry.contains c = true ∧ ∃ t, s.tasks k = some t ∧ t.controller = some c

theorem Inv.start {freeBufs : List Nat} (h : freeBufs.Nodup) (slice : Slice) :
    Inv (Thread.start B freeBufs slice) where
  nodup := h
  tasks := fun _ _ ht => nomatch ht
  apart := fun _ _ _ _ _ _ ht => nomatch ht
  probes := fun _ hid => nomatch hid
  creators := fun _ _ hc => nomatch hc

theorem Inv.mine (hi : Inv s) (hk : s.tasks k = some t) {c : Nat} (hc : s.creator c = some k) :
    s.registry.contains c = true ∧ t.controller = some c := by
  obtain ⟨hlive, u, hu, huc⟩ := hi.creators c k hc
  obtain rfl : t = u := Option.some.inj (hk.symm.trans hu)
  exact ⟨hlive, huc⟩

/-- A step of task `k`, as the other tasks see it. -/
structure Beside (k : Nat) (s s' : Thread B) : Prop where
  tasks : ∀ j, j ≠ k → s'.tasks j = s.tasks j
  freeBufs : ∀ idx ∈ s'.freeBufs, idx ∈ s.freeBufs ∨ ∃ t, s.tasks k = some t ∧ t.bufIndex = some idx
  nextProbeId : s.nextProbeId ≤ s'.nextProbeId
  parkProbes : ∀ id ∈ s'.parkProbes, id ∈ s.parkProbes ∨ s.nextProbeId ≤ id
  creator : ∀ c j, j ≠ k → (s'.creator c = some j ↔ s.creator c = some j)
  registry : ∀ c j, j ≠ k → s.creator c = some j → s'.registry.contains c = true

theorem Inv.beside (hi : Inv s) (hb : Beside k s s') (hj : j ≠ k) (ht : s.tasks j = some t) :
    s'.TaskOk j t := by
  have hok := hi.tasks j t ht
  refine ⟨hok.held, ?_, hok.fresh, hok.early, ?_, ?_, ?_⟩
  · intro idx hidx hfree
    rcases hb.freeBufs idx hfree with h | ⟨u, hu, h⟩
    · exact hok.apart idx hidx h
    · exact hi.apart j k t u idx hj ht hu hidx h
  · intro id hid
    obtain ⟨hlt, hgone⟩ := hok.probe id hid
    have hn := hb.nextProbeId
    refine ⟨by omega, fun hst hmem => ?_⟩
    rcases hb.parkProbes id hmem with h | h
    · exact hgone hst h
    · omega
  · exact fun hst c hc => (hb.creator c j hj).2 (hok.creator hst c hc)
  · exact fun hst c hc => hok.removed hst c ((hb.creator c j hj).1 hc)

/-- What task `k` does keeps the invariant, if its own part holds afterwards. -/
theorem Inv.of_task (hi : Inv s) (hb : Beside k s s') (hk : s'.tasks k = some t')
    (hok : s'.TaskOk k t') (hnodup : s'.freeBufs.Nodup)
    (hprobes : ∀ id ∈ s'.parkProbes, id < s'.nextProbeId)
    (hcreators : ∀ c, s'.creator c = some k →
      s'.registry.contains c = true ∧ t'.controller = some c)
    (hbuf : ∀ idx, t'.bufIndex = some idx →
      (∃ t, s.tasks k = some t ∧ t.bufIndex = some idx) ∨ idx ∈ s.freeBufs) : Inv s' where
  nodup := hnodup
  tasks := by
    intro j u hu
    by_cases hj : j = k
    · subst hj
      obtain rfl : t' = u := Option.some.inj (hk.symm.trans hu)
      exact hok
    · rw [hb.tasks j hj] at hu
      exact hi.beside hb hj hu
  apart := by
    -- whatever `k` has now, it had or it was free
    have hfar : ∀ j u idx, j ≠ k → s.tasks j = some u → u.bufIndex = some idx →
        t'.bufIndex ≠ some idx := by
      intro j u idx hj hu hidx ht'
      rcases hbuf idx ht' with ⟨v, hv, hvi⟩ | hfree
      · exact hi.apart j k u v idx hj hu hv hidx hvi
      · exact (hi.tasks j u hu).apart idx hidx hfree
    intro i j u v idx hij hu hv hui
    by_cases hik : i = k
    · subst hik
      obtain rfl : t' = u := Option.some.inj (hk.symm.trans hu)
      have hji : j ≠ i := Ne.symm hij
      rw [hb.tasks j hji] at hv
      exact fun hvi => hfar j v idx hji hv hvi hui
    · rw [hb.tasks i hik] at hu
      by_cases hjk : j = k
      · subst hjk
        obtain rfl : t' = v := Option.some.inj (hk.symm.trans hv)
        exact hfar i u idx hik hu hui
      · rw [hb.tasks j hjk] at hv
        exact hi.apart i j u v idx hij hu hv hui
  probes := hprobes
  creators := by
    intro c j hc
    by_cases hj : j = k
    · subst hj
      exact ⟨(hcreators c hc).1, t', hk, (hcreators c hc).2⟩
    · have hc' := (hb.creator c j hj).1 hc
      obtain ⟨-, u, hu, huc⟩ := hi.creators c j hc'
      exact ⟨hb.registry c j hj hc', u, (hb.tasks j hj).trans hu, huc⟩

@[simp] theorem setTask_self (s : Thread B) (k : Nat) (t : ConnTask B) :
    (s.setTask k t).tasks k = some t := by simp [setTask]

theorem setTask_other (s : Thread B) (t : ConnTask B) (h : j ≠ k) :
    (s.setTask k t).tasks j = s.tasks j := by simp [setTask, h]

theorem beside_setTask (hi : Inv s) (k : Nat) (t : ConnTask B) : Beside k s (s.setTask k t) where
  tasks := fun _ hj => setTask_other s t hj
  freeBufs := fun _ h => .inl h
  nextProbeId := Nat.le_refl _
  parkProbes := fun _ h => .inl h
  creator := fun _ _ _ => Iff.rfl
  registry := fun c j _ hc => (hi.creators c j hc).1

/-! ## Each step -/

inductive Steps (s : Thread B) (k : Nat) : Thread B → Prop where
  | spawns (vacant : s.tasks k = none) : Steps s k (s.setTask k (.new B))
  | moves {t : ConnTask B} {stage : Stage} (task : s.tasks k = some t)
      (underway : t.stage.Underway) (notReaping : t.stage ≠ .reaping) (goal : stage ≠ .draining)
      (fresh : unconnected stage = true → unconnected t.stage = true) :
      Steps s k (s.setTask k { t with stage })
  | registers {t : ConnTask B} {idx : Nat} {rest : List Nat} (task : s.tasks k = some t)
      (stage : t.stage = .register) (free : s.freeBufs = idx :: rest) :
      Steps s k ({ s with freeBufs := rest }.setTask k
        { t with stage := .regions, registered := some idx, bufIndex := some idx })
  | installs {t : ConnTask B} (task : s.tasks k = some t) (stage : t.stage = .installParkProbe) :
      Steps s k ({ s with
          parkProbes := s.parkProbes ++ [s.nextProbeId]
          nextProbeId := s.nextProbeId + 1 }.setTask k
        { t with stage := .reaping, probe := some s.nextProbeId })
  | connects {t : ConnTask B} {tables : Admin.Tables B} {before after : ConnCtx (Volume B)}
      {r : Registry} (task : s.tasks k = some t) (stage : t.stage = .dispatch)
      (new : controllerOf before = none) (executed : Executed tables before s.registry after r) :
      Steps s k (s.dispatched k t .respond before after r)
  | commands {t : ConnTask B} {tables : Admin.Tables B} {before after : ConnCtx (Volume B)}
      {r : Registry} (task : s.tasks k = some t) (ctx : t.ctx = some before)
      (stage : t.stage = .reaping ∨ t.stage = .draining ∧ hasToDrain before)
      (executed : Executed tables before s.registry after r) :
      Steps s k (s.dispatched k t t.stage before after r)
  | stops {t : ConnTask B} (task : s.tasks k = some t) (stage : t.stage = .reaping) :
      Steps s k (s.stop k t)
  | drains {t : ConnTask B} (task : s.tasks k = some t) (stage : t.stage = .draining) :
      Steps s k (s.giveBack k t)
  | leaks {t : ConnTask B} (task : s.tasks k = some t) (stage : t.stage = .draining) :
      Steps s k (s.setTask k { t with stage := .leaked })

theorem advance_spec {ok : Bool} (hk : s.tasks k = some t) (h : s.advance k t ok = some s') :
    Steps s k s' := by
  unfold Thread.advance at h
  split at h
  · rename_i hst
    obtain rfl := Option.some.inj h
    unfold Thread.registerBuffer
    split
    · exact .registers hk hst ‹_›
    · exact .moves hk (by rw [hst]; trivial) (by rw [hst]; decide) (by decide) fun _ => by rw [hst]; rfl
  · rename_i hst
    split at h
    · obtain rfl := Option.some.inj h
      exact .installs hk hst
    · obtain rfl := Option.some.inj h
      exact .moves hk (by rw [hst]; trivial) (by rw [hst]; decide) (by decide) fun h => nomatch h
  · obtain ⟨next, hnext, rfl⟩ := Option.map_eq_some_iff.1 h
    have hplain : t.stage.Underway ∧ t.stage ≠ .reaping ∧ next ≠ .draining ∧
        (unconnected next = true → unconnected t.stage = true) := by
      cases hst : t.stage <;> rw [hst] at hnext <;>
        first | (cases hnext; done) | (obtain rfl := Option.some.inj hnext; decide)
    cases ok with
    | true => exact .moves hk hplain.1 hplain.2.1 hplain.2.2.1 hplain.2.2.2
    | false => exact .moves hk hplain.1 hplain.2.1 (fun h => nomatch h) fun h => nomatch h

theorem controllerOf_new (conn : QueueConn) (port : PortConfig) (now : Nat) :
    controllerOf (conn.ctx port now : ConnCtx (Volume B)) = none := by
  unfold controllerOf QueueConn.ctx
  by_cases h : conn.qid = 0 <;> simp [h, AdminState.new]

theorem step_spec [Backend B] {port : PortConfig} {a : ConnAction B}
    (h : s.step port a = some s') : ∃ k, Steps s k s' := by
  cases a with
  | spawn k =>
    obtain ⟨hk, rfl⟩ := of_guard h
    exact ⟨k, .spawns (by simpa using hk)⟩
  | advance k ok =>
    obtain ⟨t, hk, h⟩ := Option.bind_eq_some_iff.1 h
    exact ⟨k, advance_spec hk h⟩
  | connect k conn tables now slot sqe =>
    obtain ⟨t, hk, h⟩ := Option.bind_eq_some_iff.1 h
    obtain ⟨hst, h⟩ := Option.ite_none_right_eq_some.1 h
    obtain ⟨reply, ctx', r', hok, hex⟩ :=
      execute_spec (ε := Empty) (conn.ctx port now) tables s.registry now slot sqe
    simp only [hok] at h
    obtain rfl := Option.some.inj h
    exact ⟨k, .connects hk hst (controllerOf_new ..) hex⟩
  | command k tables now slot sqe =>
    obtain ⟨t, hk, h⟩ := Option.bind_eq_some_iff.1 h
    obtain ⟨ctx, hctx, h⟩ := Option.bind_eq_some_iff.1 h
    obtain ⟨hst, h⟩ := Option.ite_none_right_eq_some.1 h
    obtain ⟨reply, ctx', r', hok, hex⟩ :=
      execute_spec (ε := Empty) ctx tables s.registry now slot sqe
    rw [hok] at h
    obtain rfl := Option.some.inj h
    exact ⟨k, .commands hk hctx hst hex⟩
  | stop k =>
    obtain ⟨t, hk, h⟩ := Option.bind_eq_some_iff.1 h
    obtain ⟨hst, rfl⟩ := of_guard h
    exact ⟨k, .stops hk hst⟩
  | drained k =>
    obtain ⟨t, hk, h⟩ := Option.bind_eq_some_iff.1 h
    obtain ⟨hst, rfl⟩ := of_guard h
    exact ⟨k, .drains hk hst⟩
  | timedOut k =>
    obtain ⟨t, hk, h⟩ := Option.bind_eq_some_iff.1 h
    obtain ⟨hst, rfl⟩ := of_guard h
    exact ⟨k, .leaks hk hst⟩

theorem Inv.spawn (hi : Inv s) (hk : s.tasks k = none) : Inv (s.setTask k (.new B)) := by
  have hnone : ∀ c, s.creator c ≠ some k := by
    intro c hc
    obtain ⟨-, u, hu, -⟩ := hi.creators c k hc
    rw [hk] at hu
    cases hu
  refine hi.of_task (beside_setTask hi k _) (setTask_self ..) ?_ hi.nodup hi.probes ?_ ?_
  · exact {
      held := fun _ => rfl
      apart := fun _ h => nomatch h
      fresh := fun _ => rfl
      early := fun _ _ => rfl
      probe := fun _ h => nomatch h
      creator := fun _ _ h => nomatch h
      removed := fun h => nomatch h }
  · exact fun c hc => absurd hc (hnone c)
  · exact fun _ h => nomatch h

theorem Inv.move (hi : Inv s) (hk : s.tasks k = some t) (stage : Stage)
    (hst : t.stage.Underway) (hreap : t.stage ≠ .reaping) (hto : stage ≠ .draining)
    (hfresh : unconnected stage = true → unconnected t.stage = true) :
    Inv (s.setTask k { t with stage }) := by
  have hok := hi.tasks k t hk
  have hprobe := hok.early hst hreap
  have hret : t.stage ≠ .returned := by
    intro h
    rw [h] at hst
    exact hst
  refine hi.of_task (beside_setTask hi k _) (setTask_self ..) ?_ hi.nodup hi.probes ?_ ?_
  · refine ⟨fun _ => hok.held hret, hok.apart, fun h => hok.fresh (hfresh h), fun _ _ => hprobe, ?_, ?_,
      fun h => absurd h hto⟩
    · intro id hid
      exact nomatch hprobe.symm.trans hid
    · exact fun _ => hok.creator hst
  · exact fun c hc => hi.mine hk hc
  · exact fun idx hidx => .inl ⟨t, hk, hidx⟩

theorem Inv.registerBuffer {idx : Nat} {rest : List Nat} (hi : Inv s) (hk : s.tasks k = some t)
    (hst : t.stage = .register) (hfree : s.freeBufs = idx :: rest) :
    Inv ({ s with freeBufs := rest }.setTask k
      { t with stage := .regions, registered := some idx, bufIndex := some idx }) := by
  have hu : t.stage.Underway := by rw [hst]; trivial
  have hr : t.stage ≠ .reaping := by rw [hst]; decide
  have hok := hi.tasks k t hk
  have hnd := hi.nodup
  rw [hfree] at hnd
  have hsub : ∀ i ∈ rest, i ∈ s.freeBufs := by
    intro i h
    rw [hfree]
    exact List.mem_cons_of_mem _ h
  refine hi.of_task ⟨fun _ hj => setTask_other _ _ hj, fun i h => .inl (hsub i h), Nat.le_refl _,
    fun _ h => .inl h, fun _ _ _ => Iff.rfl, fun c j _ hc => (hi.creators c j hc).1⟩
    (setTask_self ..) ?_ hnd.of_cons hi.probes (fun c hc => hi.mine hk hc) ?_
  · refine ⟨fun _ => rfl, ?_, fun _ => hok.fresh (by rw [hst]; rfl), fun _ _ => hok.early hu hr, ?_,
      fun _ => hok.creator hu, fun h => nomatch h⟩
    · intro i hi' hmem
      obtain rfl := Option.some.inj hi'
      exact (List.nodup_cons.1 hnd).1 hmem
    · intro id hid
      exact nomatch (hok.early hu hr).symm.trans hid
  · intro i hi'
    obtain rfl := Option.some.inj hi'
    exact .inr (by simp [hfree])

theorem Inv.installProbe (hi : Inv s) (hk : s.tasks k = some t)
    (hst : t.stage = .installParkProbe) :
    Inv ({ s with
        parkProbes := s.parkProbes ++ [s.nextProbeId]
        nextProbeId := s.nextProbeId + 1 }.setTask k
      { t with stage := .reaping, probe := some s.nextProbeId }) := by
  have hok := hi.tasks k t hk
  have hu : t.stage.Underway := by rw [hst]; trivial
  have hret : t.stage ≠ .returned := by rw [hst]; decide
  refine hi.of_task ⟨fun _ hj => setTask_other _ _ hj, fun _ h => .inl h, Nat.le_succ _, ?_,
    fun _ _ _ => Iff.rfl, fun c j _ hc => (hi.creators c j hc).1⟩ (setTask_self ..) ?_ hi.nodup ?_ ?_ ?_
  · intro id hid
    rcases List.mem_append.1 hid with h | h
    · exact .inl h
    · exact .inr (List.mem_singleton.1 h).ge
  · refine ⟨fun _ => hok.held hret, hok.apart, (fun h => nomatch h), fun _ h => absurd rfl h, ?_,
      fun _ => hok.creator hu, fun h => nomatch h⟩
    intro id hid
    obtain rfl := Option.some.inj hid
    exact ⟨Nat.lt_succ_self _, fun h => absurd trivial h⟩
  · intro id hid
    rcases List.mem_append.1 hid with h | h
    · exact Nat.lt_succ_of_lt (hi.probes id h)
    · rw [List.mem_singleton.1 h]
      exact Nat.lt_succ_self _
  · exact fun c hc => hi.mine hk hc
  · exact fun idx hidx => .inl ⟨t, hk, hidx⟩

theorem Inv.dispatched {tables : Admin.Tables B} {stage : Stage} {before after : ConnCtx (Volume B)}
    {r : Registry} (hi : Inv s) (hk : s.tasks k = some t)
    (hex : Executed tables before s.registry after r)
    (hbefore : t.controller = controllerOf before)
    (hstage : stage = t.stage ∧ unconnected stage = false ∨ t.stage = .dispatch ∧ stage = .respond)
    (hdrain : t.stage = .draining → controllerOf after = controllerOf before) :
    Inv (s.dispatched k t stage before after r) := by
  have hok := hi.tasks k t hk
  have hlive : ∀ c j, s.creator c = some j → s.registry.contains c = true :=
    fun c j hc => (hi.creators c j hc).1
  -- the part that does not depend on what the command did
  have hof : ∀ creator : Nat → Option Nat,
      (∀ c j, j ≠ k → (creator c = some j ↔ s.creator c = some j)) →
      (∀ c j, j ≠ k → s.creator c = some j → r.contains c = true) →
      (∀ c, creator c = some k → r.contains c = true ∧ controllerOf after = some c) →
      (t.stage.Underway → ∀ c, controllerOf after = some c → creator c = some k) →
      (t.stage = .draining → ∀ c, creator c ≠ some k) →
      Inv ({ s with registry := r, creator }.setTask k { t with stage, ctx := some after }) := by
    intro creator hcre hreg hnew hctl hdown
    have hunder : stage.Underway ↔ t.stage.Underway := by
      rcases hstage with ⟨rfl, -⟩ | ⟨hd, rfl⟩
      · rfl
      · simp [hd, Stage.Underway]
    refine hi.of_task ⟨fun _ hj => setTask_other _ _ hj, fun _ h => .inl h, Nat.le_refl _,
      fun _ h => .inl h, hcre, hreg⟩ (setTask_self ..) ?_ hi.nodup hi.probes hnew
      fun idx hidx => .inl ⟨t, hk, hidx⟩
    refine ⟨?_, hok.apart, ?_, ?_, ?_, ?_, ?_⟩
    · intro hret
      rcases hstage with ⟨rfl, -⟩ | ⟨hd, rfl⟩
      · exact hok.held hret
      · exact hok.held (by rw [hd]; decide)
    · intro hfresh
      rcases hstage with ⟨-, hno⟩ | ⟨-, rfl⟩
      · exact nomatch hno.symm.trans hfresh
      · cases hfresh
    · intro hu hr
      rcases hstage with ⟨rfl, -⟩ | ⟨hd, rfl⟩
      · exact hok.early hu hr
      · exact hok.early (hunder.1 hu) (by rw [hd]; decide)
    · intro id hid
      obtain ⟨hlt, hgone⟩ := hok.probe id hid
      exact ⟨hlt, fun hst => hgone (mt hunder.2 hst)⟩
    · intro hu c hc
      exact hctl (hunder.1 hu) c hc
    · intro hst
      rcases hstage with ⟨rfl, -⟩ | ⟨-, rfl⟩
      · exact hdown hst
      · cases hst
  rcases hex.controller with ⟨hsame, hreg⟩ | ⟨hnone, -, -, c, hsome, hfree, hnow, hreg⟩
  · have hcre : noteCreator s.creator k (controllerOf before) (controllerOf after) = s.creator := by
      rw [hsame]
      cases controllerOf before <;> rfl
    unfold Thread.dispatched
    rw [hcre]
    refine hof s.creator (fun _ _ _ => Iff.rfl) ?_ ?_ ?_ hok.removed
    · exact fun c j _ hc => (hreg c).trans (hlive c j hc)
    · exact fun c hc => ⟨(hreg c).trans (hlive c k hc), by rw [hsame, ← hbefore]; exact (hi.mine hk hc).2⟩
    · exact fun hu c hc => hok.creator hu c (by rw [hbefore, ← hsame]; exact hc)
  · -- a controller is created: its id was vacant, so nobody else's
    have hvacant : ∀ j, s.creator c ≠ some j := by
      intro j hc
      rw [hlive c j hc] at hfree
      cases hfree
    have hunbound : ∀ c', s.creator c' ≠ some k := by
      intro c' hc
      exact nomatch (hi.mine hk hc).2.symm.trans (hbefore.trans hnone)
    have hcre : noteCreator s.creator k (controllerOf before) (controllerOf after)
        = Function.update s.creator c (some k) := by
      rw [hnone, hsome, noteCreator]
    unfold Thread.dispatched
    rw [hcre]
    refine hof _ ?_ ?_ ?_ ?_ ?_
    · intro c' j hj
      by_cases hc : c' = c
      · subst hc
        simp [Ne.symm hj, hvacant]
      · rw [Function.update_of_ne hc]
    · intro c' j _ hc'
      have hne : c' ≠ c := fun h => hvacant j (h ▸ hc')
      rw [hreg c' hne]
      exact hlive c' j hc'
    · intro c' hc'
      by_cases hc : c' = c
      · subst hc
        exact ⟨hnow, hsome⟩
      · rw [Function.update_of_ne hc] at hc'
        exact absurd hc' (hunbound c')
    · intro _ c' hc'
      obtain rfl := Option.some.inj (hsome.symm.trans hc')
      simp
    · intro hst
      exact nomatch hsome.symm.trans ((hdrain hst).trans hnone)

theorem Inv.stop (hi : Inv s) (hk : s.tasks k = some t) (hst : t.stage = .reaping) :
    Inv (s.stop k t) := by
  have hok := hi.tasks k t hk
  have hu : t.stage.Underway := by rw [hst]; trivial
  have hret : t.stage ≠ .returned := by rw [hst]; decide
  obtain ⟨r, creator, heq, hreg, hcre, hnone⟩ : ∃ r creator,
      ({ s with parkProbes := s.parkProbes.filter fun id => some id ≠ t.probe }.removeController
          t.controller)
        = { s with
            parkProbes := s.parkProbes.filter fun id => some id ≠ t.probe
            registry := r
            creator } ∧
      (∀ c j, j ≠ k → s.creator c = some j → r.contains c = true) ∧
      (∀ c j, j ≠ k → (creator c = some j ↔ s.creator c = some j)) ∧
      ∀ c, creator c ≠ some k := by
    cases hc : t.controller with
    | none =>
      refine ⟨s.registry, s.creator, rfl, fun c j _ h => (hi.creators c j h).1,
        fun _ _ _ => Iff.rfl, fun c h => ?_⟩
      cases hc.symm.trans (hi.mine hk h).2
    | some cntlid =>
      have hown := hok.creator hu cntlid hc
      refine ⟨_, _, rfl, ?_, ?_, ?_⟩
      · intro c j hj h
        have hne : c ≠ cntlid := fun h' => hj (Option.some.inj (h.symm.trans (h' ▸ hown)))
        have hl := (hi.creators c j h).1
        unfold Registry.remove
        split
        · exact hl
        · simpa [Registry.contains, Registry.dropEntry, Function.update_of_ne hne] using hl
      · intro c j hj
        by_cases h : c = cntlid
        · subst h
          simp [hown, Ne.symm hj]
        · rw [Function.update_of_ne h]
      · intro c h
        by_cases h' : c = cntlid
        · subst h'
          simp at h
        · rw [Function.update_of_ne h'] at h
          exact h' (Option.some.inj ((hi.mine hk h).2.symm.trans hc))
  unfold Thread.stop
  dsimp only
  rw [heq]
  refine hi.of_task ⟨fun _ hj => setTask_other _ _ hj, fun _ h => .inl h, Nat.le_refl _,
    fun id h => .inl (List.mem_of_mem_filter h), hcre, hreg⟩ (setTask_self ..) ?_ hi.nodup
    (fun id h => hi.probes id (List.mem_of_mem_filter h)) (fun c h => absurd h (hnone c))
    fun idx hidx => .inl ⟨t, hk, hidx⟩
  refine ⟨fun _ => hok.held hret, hok.apart, (fun h => by cases h), fun h => absurd h id, ?_,
    fun h => absurd h id, fun _ => hnone⟩
  intro p hp
  refine ⟨(hok.probe p hp).1, fun _ hmem => ?_⟩
  exact absurd hp.symm (of_decide_eq_true (List.mem_filter.1 hmem).2)

theorem Inv.giveBack (hi : Inv s) (hk : s.tasks k = some t) (hst : t.stage = .draining) :
    Inv (s.giveBack k t) := by
  have hok := hi.tasks k t hk
  have hmem : ∀ idx, idx ∈ t.bufIndex.toList ++ s.freeBufs →
      idx ∈ s.freeBufs ∨ ∃ t, s.tasks k = some t ∧ t.bufIndex = some idx := by
    intro idx h
    rcases List.mem_append.1 h with h | h
    · exact .inr ⟨t, hk, Option.mem_toList.1 h⟩
    · exact .inl h
  refine hi.of_task ⟨fun _ hj => setTask_other _ _ hj, hmem, Nat.le_refl _, fun _ h => .inl h,
    fun _ _ _ => Iff.rfl, fun c j _ hc => (hi.creators c j hc).1⟩ (setTask_self ..) ?_ ?_ hi.probes
    (fun c h => absurd h (hok.removed hst c)) fun _ h => nomatch h
  · exact {
      held := fun h => absurd rfl h
      apart := fun _ h => nomatch h
      fresh := fun h => nomatch h
      early := fun h => absurd h id
      probe := fun p hp => ⟨(hok.probe p hp).1, fun _ => (hok.probe p hp).2 (by rw [hst]; exact id)⟩
      creator := fun h => absurd h id
      removed := fun h => nomatch h }
  · simp only [Thread.giveBack, Thread.setTask]
    cases hidx : t.bufIndex with
    | none => exact hi.nodup
    | some idx => exact List.nodup_cons.2 ⟨hok.apart idx hidx, hi.nodup⟩

theorem Inv.timedOut (hi : Inv s) (hk : s.tasks k = some t) (hst : t.stage = .draining) :
    Inv (s.setTask k { t with stage := .leaked }) := by
  have hok := hi.tasks k t hk
  refine hi.of_task (beside_setTask hi k _) (setTask_self ..) ?_ hi.nodup hi.probes
    (fun c h => absurd h (hok.removed hst c)) fun idx hidx => .inl ⟨t, hk, hidx⟩
  exact {
    held := fun _ => hok.held (by rw [hst]; decide)
    apart := hok.apart
    fresh := fun h => nomatch h
    early := fun h => absurd h id
    probe := fun p hp => ⟨(hok.probe p hp).1, fun _ => (hok.probe p hp).2 (by rw [hst]; exact id)⟩
    creator := fun h => absurd h id
    removed := fun h => nomatch h }

/-- A queue that still drains has its controller or can have none. -/
theorem controllerOf_draining {tables : Admin.Tables B} {before after : ConnCtx (Volume B)}
    {r r' : Registry} (hex : Executed tables before r after r') (hd : hasToDrain before = true) :
    controllerOf after = controllerOf before := by
  rcases hex.controller with ⟨h, -⟩ | ⟨hnone, -, ⟨a, ha⟩, -⟩
  · exact h
  · simp only [controllerOf, ha] at hnone
    simp only [hasToDrain, ha, bne_iff_ne] at hd
    simp [hd] at hnone

theorem Inv.step (hi : Inv s) (h : Steps s k s') : Inv s' := by
  cases h with
  | spawns hk => exact hi.spawn hk
  | moves hk hu hr hto hfresh => exact hi.move hk _ hu hr hto hfresh
  | registers hk hst hfree => exact hi.registerBuffer hk hst hfree
  | installs hk hst => exact hi.installProbe hk hst
  | @connects t tables before after r hk hst hnew hex =>
    have hfresh := (hi.tasks k t hk).fresh (by rw [hst]; rfl)
    refine hi.dispatched hk hex ?_ (.inr ⟨hst, rfl⟩) fun hd => ?_
    · rw [ConnTask.controller, hfresh, hnew]
      rfl
    · rw [hst] at hd
      cases hd
  | commands hk hctx hst hex =>
    refine hi.dispatched hk hex (by rw [ConnTask.controller, hctx]; rfl) (.inl ⟨rfl, ?_⟩) fun hd => ?_
    · rcases hst with h | ⟨h, -⟩ <;> rw [h] <;> rfl
    · rcases hst with h | ⟨-, h⟩
      · rw [h] at hd
        cases hd
      · exact controllerOf_draining hex h
  | stops hk hst => exact hi.stop hk hst
  | drains hk hst => exact hi.giveBack hk hst
  | leaks hk hst => exact hi.timedOut hk hst

/-! ## Returning -/

theorem Steps.other (h : Steps s j s') (hk : k ≠ j) : s'.tasks k = s.tasks k := by
  cases h with
  | @stops t =>
    refine (setTask_other _ _ hk).trans ?_
    cases t.controller <;> rfl
  | _ => exact setTask_other _ _ hk

/-- How a task comes to return: a step of it fails, or `teardown` is through. -/
inductive Returns (s : Thread B) (k : Nat) (t : ConnTask B) : Thread B → Prop where
  | failed (underway : t.stage.Underway) (notReaping : t.stage ≠ .reaping) :
      Returns s k t (s.setTask k { t with stage := .returned })
  | drained (draining : t.stage = .draining) : Returns s k t (s.giveBack k t)

theorem stage_of_setTask {u : ConnTask B} (hk' : (s.setTask k u).tasks k = some t')
    (hret : t'.stage = .returned) : u.stage = .returned := by
  obtain rfl := Option.some.inj ((setTask_self s k u).symm.trans hk')
  exact hret

theorem Steps.returns (h : Steps s j s') (hk : s.tasks k = some t) (hopen : t.stage ≠ .returned)
    (hk' : s'.tasks k = some t') (hret : t'.stage = .returned) : Returns s k t s' := by
  obtain rfl : k = j := by
    by_contra hne
    rw [h.other hne, hk] at hk'
    obtain rfl := Option.some.inj hk'
    exact hopen hret
  cases h with
  | moves hu hunder hr =>
    obtain rfl := Option.some.inj (hk.symm.trans hu)
    obtain rfl := stage_of_setTask hk' hret
    exact .failed hunder hr
  | commands hu =>
    obtain rfl := Option.some.inj (hk.symm.trans hu)
    exact absurd (stage_of_setTask hk' hret) hopen
  | drains hu hst =>
    obtain rfl := Option.some.inj (hk.symm.trans hu)
    exact .drained hst
  | _ => cases stage_of_setTask hk' hret

theorem Inv.clean_failed (hi : Inv s) (hk : s.tasks k = some t) (hst : t.stage.Underway)
    (hre : t.stage ≠ .reaping) :
    (s.setTask k { t with stage := .returned }).Clean k { t with stage := .returned } ↔
      t.registered = none ∧ t.controller = none := by
  have hok := hi.tasks k t hk
  have hheld : t.bufIndex = t.registered := hok.held fun h => by rw [h] at hst; exact hst
  constructor
  · intro hclean
    constructor
    · cases hreg : t.registered with
      | none => rfl
      | some idx =>
        exact absurd (hclean.index idx hreg) (hok.apart idx (hheld.trans hreg))
    · cases hc : t.controller with
      | none => rfl
      | some c =>
        have hcreator := hok.creator hst c hc
        have hgone : s.registry.contains c = false := hclean.controller c hcreator
        rw [(hi.creators c k hcreator).1] at hgone
        cases hgone
  · rintro ⟨hreg, hc⟩
    refine ⟨fun idx h => ?_, fun id h => ?_, fun c h => ?_⟩
    · cases hreg.symm.trans h
    · cases (hok.early hst hre).symm.trans h
    · cases hc.symm.trans (hi.mine hk h).2

theorem Inv.clean_drained (hi : Inv s) (hk : s.tasks k = some t) (hst : t.stage = .draining) :
    (s.giveBack k t).Clean k { t with stage := .returned, bufIndex := none } := by
  have hok := hi.tasks k t hk
  refine ⟨fun idx h => ?_, fun id h => ?_, fun c h => ?_⟩
  · have hbuf : t.bufIndex = some idx := (hok.held (by rw [hst]; decide)).trans h
    simp [Thread.giveBack, setTask, hbuf]
  · exact (hok.probe id h).2 (by rw [hst]; exact fun h => h)
  · exact absurd h (hok.removed hst c)

end Thread

/-- **An RDMA connection that returns leaves nothing behind** exactly when it ends through `teardown`,
or fails before its pool has an index of the fixed-buffer table and before its Connect has created a
controller. -/
theorem returns_clean_iff [Backend B] (port : PortConfig) (freeBufs : List Nat)
    (hfree : freeBufs.Nodup) (slice : Slice) (as : List (ConnAction B)) (s s' : Thread B)
    (hrun : runFrom (Thread.step port) (.start B freeBufs slice) as = some s)
    (a : ConnAction B) (hstep : s.step port a = some s') (k : Nat) (t t' : ConnTask B)
    (hk : s.tasks k = some t) (hopen : t.stage ≠ .returned)
    (hk' : s'.tasks k = some t') (hret : t'.stage = .returned) :
    s'.Clean k t' ↔ t.stage = .draining ∨ t.registered = none ∧ t.controller = none := by
  have hi : s.Inv :=
    @runFrom_invariant _ _ (Thread.step port) Thread.Inv
      (fun hi hs => hi.step (Thread.step_spec hs).choose_spec) as _ _ (.start hfree slice) hrun
  obtain ⟨j, hsteps⟩ := Thread.step_spec hstep
  cases hsteps.returns hk hopen hk' hret with
  | failed underway notReaping =>
    obtain rfl := Option.some.inj ((Thread.setTask_self ..).symm.trans hk')
    rw [hi.clean_failed hk underway notReaping]
    refine ⟨Or.inr, fun h => h.resolve_left fun hst => ?_⟩
    rw [hst] at underway
    exact underway
  | drained draining =>
    obtain rfl := Option.some.inj ((Thread.setTask_self ..).symm.trans hk')
    exact ⟨fun _ => .inl draining, fun _ => hi.clean_drained hk draining⟩

def oneIndex : Thread Geometry :=
  .start Geometry [0] { min := 1, max := cntlidMax, valid := wholeSlice_valid }

def connected : List (ConnAction Geometry) :=
  [.spawn 0, .advance 0 true, .advance 0 true, .advance 0 true, .advance 0 true, .advance 0 true,
    .advance 0 true,
    .connect 0 (eventConn 32) (fun _ => .new []) 0 noPayload
      { Sqe.zeroed with opcode := AdminOpcode.fabrics, nsid := Fctype.connect }]

def served : List (ConnAction Geometry) :=
  connected ++
    [.advance 0 true, .advance 0 true, .advance 0 true, .advance 0 true, .stop 0]

theorem returns_clean_iff_torn_down :
    ∃ s s' t', runFrom (Thread.step eventPort) oneIndex served = some s ∧
      s.step eventPort (.drained 0) = some s' ∧ s'.tasks 0 = some t' ∧
      t'.stage = .returned ∧ t'.registered = some 0 ∧ t'.controller = some 1 ∧ s'.Clean 0 t' := by
  have hrun : ((runFrom (Thread.step eventPort) oneIndex served).bind fun s =>
      (s.step eventPort (.drained 0)).bind fun s' =>
        (s.tasks 0).bind fun t => (s'.tasks 0).map fun t' =>
          (t.stage, t'.stage, t'.registered, t'.controller)) =
      some (.draining, .returned, some 0, some 1) := by
    decide +kernel
  obtain ⟨s, hs, h⟩ := Option.bind_eq_some_iff.1 hrun
  obtain ⟨s', hs', h⟩ := Option.bind_eq_some_iff.1 h
  obtain ⟨t, ht, h⟩ := Option.bind_eq_some_iff.1 h
  obtain ⟨t', ht', h⟩ := Option.map_eq_some_iff.1 h
  simp only [Prod.mk.injEq] at h
  obtain ⟨hst, hret, hreg, hc⟩ := h
  refine ⟨s, s', t', hs, hs', ht', hret, hreg, hc, ?_⟩
  exact (returns_clean_iff eventPort [0] (by decide) _ served s s' hs (.drained 0) hs' 0 t t' ht
    (by rw [hst]; decide) ht' hret).2 (.inl hst)

/-- A connection whose answer to the Connect cannot be posted returns with the thread's only index
taken and its controller in the registry. -/
theorem failed_post_leaves_index_and_controller :
    ∃ s t, runFrom (Thread.step eventPort) oneIndex (connected ++ [.advance 0 false]) = some s ∧
      s.tasks 0 = some t ∧ t.stage = .returned ∧ t.registered = some 0 ∧ s.freeBufs = [] ∧
      s.creator 1 = some 0 ∧ s.registry.contains 1 = true ∧ ¬ s.Clean 0 t := by
  have hrun : ((runFrom (Thread.step eventPort) oneIndex (connected ++ [.advance 0 false])).bind
      fun s => (s.tasks 0).map fun t =>
        ((t.stage, t.registered, s.freeBufs), s.creator 1, s.registry.contains 1)) =
      some ((.returned, some 0, []), some 0, true) := by
    decide +kernel
  obtain ⟨s, hs, h⟩ := Option.bind_eq_some_iff.1 hrun
  obtain ⟨t, ht, h⟩ := Option.map_eq_some_iff.1 h
  simp only [Prod.mk.injEq] at h
  obtain ⟨⟨hret, hreg, hfree⟩, hcreator, hlive⟩ := h
  refine ⟨s, t, hs, ht, hret, hreg, hfree, hcreator, hlive, fun hclean => ?_⟩
  cases (hclean.controller 1 hcreator).symm.trans hlive

end Ioutgt.Rdma
