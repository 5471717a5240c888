import Ioutgt.Nvme.Proof.Task
import Ioutgt.Target.Proof.AdminQueue
import Ioutgt.Target.SendOrder

/-!
# The SQ head in send order

A completion entry is built and queued in one poll: a handler advances the head as its last act, so
the poll that advances it runs on to the queueing of the completion, and no other task runs between.
The head is then the number of completions queued, and moving completions along the send path keeps
their order.

* `Heads`: the invariant. `Heads.push`: a completion with the head just taken.
* `drive_heads`: a poll of a task whose handler ends in its head.
-/

namespace Ioutgt.Target

open Lib Ioutgt.Core Ioutgt.Nvme

variable {sqsize tag : Nat}

namespace SendOrder

variable {B : Type} {q q' : SendOrder B}

/-- The completions carry consecutive heads, and the tasks have theirs still to take. -/
structure Heads (sqsize : Nat) (q : SendOrder B) : Prop where
  size : q.core.sqsize = sqsize
  enabled : q.core.sqhdDisabled = false
  sqhd : q.core.sqhd = q.order.length % sqsize
  order : ∀ k e, q.order[k]? = some e → e.cqe.sqHead = (k + 1) % sqsize
  tasks : ∀ tag p, q.tasks tag = some p → Task.EndsInHead p
  boot : q.booted = false → q.list = [] ∧ q.batch = []

theorem advanceSqhd_spec {n head : Nat} {core core' : QueueCore} (hsize : core.sqsize = sqsize)
    (henabled : core.sqhdDisabled = false) (hsqhd : core.sqhd = n % sqsize)
    (h : (core.advanceSqhd : Checked Empty _) = .ok (head, core')) :
    head = (n + 1) % sqsize ∧ core' = { core with sqhd := (n + 1) % sqsize } := by
  unfold QueueCore.advanceSqhd at h
  rw [if_neg (by simp [henabled])] at h
  obtain ⟨next, hnext, h⟩ := Checked.bind_eq_ok.mp h
  obtain ⟨-, rfl⟩ := Checked.add_eq_ok.mp hnext
  obtain ⟨_, -, h⟩ := Checked.bind_eq_ok.mp h
  have heq : (core.sqhd + 1) % core.sqsize = (n + 1) % sqsize := by
    rw [hsize, hsqhd, Nat.mod_add_mod]
  obtain ⟨rfl, rfl⟩ := Prod.mk.inj (Except.ok.inj h)
  exact ⟨heq, by rw [heq]⟩

theorem push_order (hboot : q.booted = false → q.list = [] ∧ q.batch = []) (tag : Nat)
    (done : Completed) :
    (q.push tag done).order = q.order ++ [⟨tag, done.cqe, done.dataLen⟩] := by
  unfold push order
  split
  · simp only [List.append_assoc]
  · rename_i h
    obtain ⟨hlist, hbatch⟩ := hboot (by simpa using h)
    simp only [hlist, hbatch, List.append_nil]

@[simp] theorem push_core (tag : Nat) (done : Completed) : (q.push tag done).core = q.core := by
  unfold push
  split <;> rfl

@[simp] theorem push_tasks (tag : Nat) (done : Completed) : (q.push tag done).tasks = q.tasks := by
  unfold push
  split <;> rfl

@[simp] theorem push_booted (tag : Nat) (done : Completed) : (q.push tag done).booted = true := by
  unfold push
  split
  · assumption
  · rfl

theorem Heads.push {done : Completed} (h : Heads sqsize q) (hsize : q'.core.sqsize = sqsize)
    (henabled : q'.core.sqhdDisabled = false) (hsqhd : q'.core.sqhd = (q.order.length + 1) % sqsize)
    (horder : q'.order = q.order) (htasks : ∀ tag p, q'.tasks tag = some p → Task.EndsInHead p)
    (hboot : q'.booted = false → q'.list = [] ∧ q'.batch = [])
    (hdone : done.cqe.sqHead = (q.order.length + 1) % sqsize) :
    Heads sqsize (q'.push tag done) := by
  have hnew := push_order hboot tag done
  rw [horder] at hnew
  refine ⟨by rw [push_core, hsize], by rw [push_core, henabled], ?_, fun k e hk => ?_, ?_,
    fun hb => ?_⟩
  · rw [push_core, hnew, hsqhd, List.length_append, List.length_singleton]
  · rw [hnew] at hk
    by_cases hlt : k < q.order.length
    · rw [List.getElem?_append_left hlt] at hk
      exact h.order k e hk
    · rw [List.getElem?_append_right (by omega)] at hk
      have hk0 : k - q.order.length = 0 := by
        by_contra hne
        rw [List.getElem?_eq_none (by simp only [List.length_singleton]; omega)] at hk
        cases hk
      rw [hk0] at hk
      obtain rfl := Option.some.inj hk
      rw [show k = q.order.length by omega]
      exact hdone
  · rw [push_tasks]
    exact htasks
  · rw [push_booted] at hb
    cases hb

theorem Heads.congr (h : Heads sqsize q) (hsize : q'.core.sqsize = q.core.sqsize)
    (hdisabled : q'.core.sqhdDisabled = q.core.sqhdDisabled) (hsqhd : q'.core.sqhd = q.core.sqhd)
    (horder : q'.order = q.order) (htasks : ∀ tag p, q'.tasks tag = some p → Task.EndsInHead p)
    (hboot : q'.booted = false → q'.list = [] ∧ q'.batch = []) : Heads sqsize q' where
  size := hsize.trans h.size
  enabled := hdisabled.trans h.enabled
  sqhd := by rw [hsqhd, h.sqhd, horder]
  order := by
    rw [horder]
    exact h.order
  tasks := htasks
  boot := hboot

theorem Heads.beside (h : Heads sqsize q) (slots : SlotArray Sqe) (ctx : ConnCtx (Volume B)) :
    Heads sqsize { q with core := { q.core with slots }, ctx } :=
  h.congr rfl rfl rfl rfl h.tasks h.boot

theorem endsInHead_update {tasks : Nat → Option (TaskProg B Completed)}
    (h : ∀ tag p, tasks tag = some p → Task.EndsInHead p) {t : Nat}
    {x : Option (TaskProg B Completed)} (hx : ∀ p, x = some p → Task.EndsInHead p) :
    ∀ tag p, Function.update tasks t x tag = some p → Task.EndsInHead p := by
  intro tag p hp
  by_cases ht : tag = t
  · subst ht
    rw [Function.update_self] at hp
    exact hx p hp
  · rw [Function.update_of_ne ht] at hp
    exact h tag p hp

/-- A poll of a task: it stops where it awaits, or takes the head and queues its completion. -/
theorem drive_heads {p : TaskProg B Completed} (hp : Task.EndsInHead p) (h : Heads sqsize q)
    (hdrive : drive tag p q = .ok q') : Heads sqsize q' := by
  cases p with
  | ret done => exact hp.elim
  | abort panic => cases hdrive
  | call op k =>
    cases op with
    | io op =>
      obtain rfl := Except.ok.inj hdrive
      refine h.congr rfl rfl rfl rfl (endsInHead_update h.tasks ?_) h.boot
      intro p hsome
      obtain rfl := Option.some.inj hsome
      exact hp
    | event =>
      obtain rfl := Except.ok.inj hdrive
      refine h.congr rfl rfl rfl rfl (endsInHead_update h.tasks ?_) h.boot
      intro p hsome
      obtain rfl := Option.some.inj hsome
      exact hp
    | advanceSqhd =>
      obtain ⟨⟨head, core⟩, hadvance, hdrive⟩ := Checked.bind_eq_ok.mp hdrive
      obtain ⟨rfl, rfl⟩ := advanceSqhd_spec h.size h.enabled h.sqhd hadvance
      -- the handler returns at once
      obtain ⟨done, hk, hhead⟩ := hp ((q.order.length + 1) % sqsize)
      rw [hk] at hdrive
      obtain ⟨slots, -, hdrive⟩ := Checked.bind_eq_ok.mp hdrive
      obtain rfl := Except.ok.inj hdrive
      exact h.push h.size h.enabled rfl rfl (endsInHead_update h.tasks nofun) h.boot hhead

theorem dispatch_heads [Backend B] {tables : Admin.Tables B} {registry : Registry} {now : Nat}
    {slot : SlotView} (h : Heads sqsize q)
    (hdispatch : q.dispatch tag tables registry now slot = .ok (some q')) : Heads sqsize q' := by
  obtain ⟨cmd, -, hdispatch⟩ := Checked.bind_eq_ok.mp hdispatch
  cases cmd with
  | none => cases hdispatch
  | some cmd =>
    obtain ⟨sqe, slots⟩ := cmd
    obtain ⟨⟨handler, ctx, registry'⟩, hexec, hdispatch⟩ := Checked.bind_eq_ok.mp hdispatch
    obtain ⟨q1, hdrive, hdispatch⟩ := Checked.bind_eq_ok.mp hdispatch
    obtain rfl := Option.some.inj (Except.ok.inj hdispatch)
    exact drive_heads (Task.execute_endsInHead hexec) (h.beside slots ctx) hdrive

theorem failReceiving_heads {cid status : Nat} (h : Heads sqsize q)
    (hfail : q.failReceiving tag cid status = .ok q') : Heads sqsize q' := by
  obtain ⟨⟨head, core⟩, hadvance, hfail⟩ := Checked.bind_eq_ok.mp hfail
  obtain ⟨rfl, rfl⟩ := advanceSqhd_spec h.size h.enabled h.sqhd hadvance
  obtain ⟨slots, -, hfail⟩ := Checked.bind_eq_ok.mp hfail
  obtain rfl := Except.ok.inj hfail
  exact h.push h.size h.enabled rfl rfl h.tasks h.boot rfl

theorem pollEvent_heads {k : Nat → TaskProg B Completed} (h : Heads sqsize q)
    (hk : ∀ result, Task.EndsInHead (k result)) (hpoll : q.pollEvent tag k = .ok q') :
    Heads sqsize q' := by
  unfold pollEvent at hpoll
  split at hpoll
  · split at hpoll
    · exact drive_heads (hk _) (h.beside q.core.slots _) hpoll
    · obtain rfl := Except.ok.inj hpoll
      exact h.beside q.core.slots _
  · cases hpoll

theorem onAdmin_heads (h : Heads sqsize q) (f : AdminState → AdminState) :
    Heads sqsize (q.onAdmin f) := by
  unfold onAdmin
  split
  · exact h.beside q.core.slots _
  · exact h

theorem Heads.step [Backend B] {a : OrderAction B} (h : Heads sqsize q) (hstep : q.step a = some q')
    : Heads sqsize q' := by
  cases a with
  | boot sqe tables registry now slot =>
    simp only [SendOrder.step] at hstep
    split at hstep
    · cases hstep
    · obtain ⟨⟨tag, q1⟩, hboot, hstep⟩ := Option.bind_eq_some_iff.mp hstep
      have hboot := Checked.toOption_join_eq_some hboot
      obtain ⟨claimed, -, hboot⟩ := Checked.bind_eq_ok.mp hboot
      cases claimed with
      | none => cases hboot
      | some claimed =>
        obtain ⟨tag', slots⟩ := claimed
        obtain ⟨slots', -, hboot⟩ := Checked.bind_eq_ok.mp hboot
        obtain ⟨rfl, rfl⟩ := Prod.mk.inj (Option.some.inj (Except.ok.inj hboot))
        exact dispatch_heads (h.beside slots' q.ctx) (Checked.toOption_join_eq_some hstep)
  | claim =>
    obtain ⟨_, -, hstep⟩ := Option.bind_eq_some_iff.mp hstep
    obtain ⟨⟨_, slots⟩, -, hstep⟩ := Option.bind_eq_some_iff.mp hstep
    obtain rfl := Option.some.inj hstep
    exact h.beside slots q.ctx
  | submit tag sqe =>
    obtain ⟨_, -, hstep⟩ := Option.bind_eq_some_iff.mp hstep
    obtain ⟨slots, -, hstep⟩ := Option.bind_eq_some_iff.mp hstep
    obtain rfl := Option.some.inj hstep
    exact h.beside slots q.ctx
  | fail tag cid status =>
    obtain ⟨_, -, hstep⟩ := Option.bind_eq_some_iff.mp hstep
    exact failReceiving_heads h (Checked.toOption_eq_some hstep)
  | dispatch tag tables registry now slot =>
    obtain ⟨_, -, hstep⟩ := Option.bind_eq_some_iff.mp hstep
    exact dispatch_heads h (Checked.toOption_join_eq_some hstep)
  | resume tag answer =>
    simp only [SendOrder.step] at hstep
    split at hstep
    · rename_i op k htask
      have hp := h.tasks tag _ htask
      exact drive_heads (hp (answer op)) h (Checked.toOption_eq_some hstep)
    · cases hstep
  | poll tag =>
    simp only [SendOrder.step] at hstep
    split at hstep
    · rename_i k htask
      exact pollEvent_heads h (h.tasks tag _ htask) (Checked.toOption_eq_some hstep)
    · cases hstep
  | nsChanged =>
    obtain rfl := Option.some.inj hstep
    exact onAdmin_heads h _
  | close =>
    obtain rfl := Option.some.inj hstep
    exact onAdmin_heads h _
  | take =>
    simp only [SendOrder.step] at hstep
    split at hstep
    · cases hstep
    · rename_i e rest hlist
      obtain rfl := Option.some.inj hstep
      refine h.congr rfl rfl rfl ?_ h.tasks fun hb => ?_
      · simp only [SendOrder.order, hlist, List.append_assoc, List.singleton_append]
      · rw [(h.boot hb).1] at hlist
        cases hlist
  | post =>
    obtain rfl := Option.some.inj hstep
    refine h.congr rfl rfl rfl ?_ h.tasks fun hb => ⟨(h.boot hb).1, rfl⟩
    simp only [SendOrder.order, List.append_nil]
  | release tag =>
    obtain ⟨⟨_, slots⟩, -, hstep⟩ := Option.bind_eq_some_iff.mp hstep
    obtain rfl := Option.some.inj hstep
    exact h.beside slots q.ctx

theorem heads_start (transport : TransportType) (port : PortConfig) (conn : QueueConn) (now : Nat) :
    Heads conn.sqsize (start transport port conn false now : SendOrder B) :=
  ⟨rfl, rfl, (Nat.zero_mod _).symm, nofun, nofun, fun _ => ⟨rfl, rfl⟩⟩

end SendOrder

/-- **On a queue with SQ flow control enabled, of either transport, the completions carry consecutive
heads**: in every interleaving of the receive path, the slot tasks and the send path the `k`-th
completion in send order, counted from one, carries `k` modulo the queue size. -/
theorem completions_carry_consecutive_heads {B : Type} [Backend B] (transport : TransportType)
    (port : PortConfig) (conn : QueueConn) (now : Nat) (as : List (OrderAction B))
    (q : SendOrder B)
    (hrun : runFrom SendOrder.step (SendOrder.start transport port conn false now) as = some q) :
    (∀ k e, q.order[k]? = some e → e.cqe.sqHead = (k + 1) % conn.sqsize) ∧
      ∀ k e e', q.order[k]? = some e → q.order[k + 1]? = some e' →
        e'.cqe.sqHead = (e.cqe.sqHead + 1) % conn.sqsize := by
  have h := @runFrom_invariant _ _ SendOrder.step (SendOrder.Heads conn.sqsize)
    (fun h hstep => h.step hstep) as _ _ (SendOrder.heads_start transport port conn now) hrun
  refine ⟨h.order, fun k e e' he he' => ?_⟩
  rw [h.order k e he, h.order (k + 1) e' he', Nat.mod_add_mod]

/-- A command is submitted, a second one is failed while it is received, the first is dispatched, and
the send path has taken one completion. -/
def failedThenDone : List (OrderAction Geometry) :=
  [.claim, .submit 0 { Sqe.zeroed with opcode := AdminOpcode.keepAlive }, .claim,
    .fail 1 7 Status.dataXferError,
    .dispatch 0 (fun _ => .new [])
      (.ofSlice { min := 1, max := cntlidMax, valid := wholeSlice_valid }) 0 noPayload,
    .take]

theorem completions_carry_consecutive_heads_failed :
    ∃ q, runFrom SendOrder.step (SendOrder.start .tcp eventPort (eventConn 2) false 0) failedThenDone
        = some q ∧
      q.order.map (fun e => (e.tag, e.cqe.sqHead)) = [(1, 1), (0, 0)] ∧
      ∀ k e, q.order[k]? = some e → e.cqe.sqHead = (k + 1) % 2 := by
  have hrun : (runFrom SendOrder.step (SendOrder.start .tcp eventPort (eventConn 2) false 0)
      failedThenDone).map (fun q => q.order.map fun e => (e.tag, e.cqe.sqHead))
        = some [(1, 1), (0, 0)] := by
    decide +kernel
  obtain ⟨q, hq, horder⟩ := Option.map_eq_some_iff.mp hrun
  exact ⟨q, hq, horder,
    (completions_carry_consecutive_heads .tcp eventPort (eventConn 2) 0 failedThenDone q hq).1⟩

end Ioutgt.Target
