import Mathlib.Data.List.Perm.Basic
import Mathlib.Algebra.BigOperators.Group.List.Basic
import Ioutgt.Rdma.WrStats

/-!
# What the in-flight gauges show

A post counts every run of a transfer and a completion takes one off, so a gauge is ahead of what is
unfinished by the runs that never report, and by everything whose completion was thrown away.

* `WrQueue.Books`: by how much each gauge is ahead, kept by every step.
* `WrQueue.gaugesExact_iff`: the gauges are exact when all that was counted had one run and nothing was
  thrown away.
* `gauges_exact_iff`: the runs that leave the gauges exact.
-/

namespace Ioutgt.Rdma

open Lib

/-! ## Sums over transfers -/

section
variable {k j : WrKind} {t : Transfer} {ts us : List Transfer}

@[simp] theorem wrs_nil : wrs k [] = 0 := rfl

@[simp] theorem wrs_cons : wrs k (t :: ts) = (if t.kind = k then t.runs else 0) + wrs k ts := by
  simp [wrs]

@[simp] theorem wrs_append : wrs k (ts ++ us) = wrs k ts + wrs k us := by simp [wrs]

theorem wrs_of_kind (h : ∀ t ∈ ts, t.kind = j) :
    wrs k ts = if j = k then Transfer.total ts else 0 := by
  induction ts with
  | nil => simp [Transfer.total]
  | cons t ts ih =>
    have ht := h t (List.mem_cons_self ..)
    rw [wrs_cons, ih fun u hu => h u (List.mem_cons_of_mem _ hu), ht]
    split <;> simp [Transfer.total]

def silent (k : WrKind) (ts : List Transfer) : Nat :=
  (ts.map fun t => if t.kind = k then t.runs - 1 else 0).sum

@[simp] theorem silent_nil : silent k [] = 0 := rfl

@[simp] theorem silent_cons :
    silent k (t :: ts) = (if t.kind = k then t.runs - 1 else 0) + silent k ts := by
  simp [silent]

@[simp] theorem silent_append : silent k (ts ++ us) = silent k ts + silent k us := by simp [silent]

/-- No transfer of any kind has a run that does not report, exactly when each is a single one. -/
theorem silent_eq_zero (h : ∀ t ∈ ts, 0 < t.runs) :
    (∀ k, silent k ts = 0) ↔ ∀ t ∈ ts, t.runs = 1 := by
  induction ts with
  | nil => simp
  | cons t ts ih =>
    have hpos := h t (List.mem_cons_self ..)
    rw [List.forall_mem_cons, ← ih fun u hu => h u (List.mem_cons_of_mem _ hu)]
    simp only [silent_cons, Nat.add_eq_zero_iff, forall_and]
    apply and_congr_left'
    constructor
    · intro hz
      have hk := hz t.kind
      rw [if_pos rfl] at hk
      omega
    · intro hone k
      simp [hone]

theorem wrs_eq_zero (h : ∀ t ∈ ts, 0 < t.runs) : (∀ k, wrs k ts = 0) ↔ ts = [] := by
  constructor
  · intro hz
    cases ts with
    | nil => rfl
    | cons t ts =>
      have h₁ := hz t.kind
      have h₂ := h t (List.mem_cons_self ..)
      rw [wrs_cons, if_pos rfl] at h₁
      omega
  · rintro rfl k
    rfl

end

/-! ## What is posted -/

theorem mem_over {kind : WrKind} {tag : Nat} {segs : List (List UInt8)} {len : Nat} {t : Transfer}
    (h : t ∈ Transfer.over kind tag segs len) : t.kind = kind ∧ 0 < t.runs := by
  unfold Transfer.over at h
  dsimp only at h
  split at h
  · cases h
  · rename_i hne
    obtain rfl := List.mem_singleton.1 h
    exact ⟨rfl, Nat.pos_of_ne_zero hne⟩

theorem LeasedRead.mem_transfers {batch : List LeasedRead} {t : Transfer}
    (h : t ∈ batch.flatMap LeasedRead.transfers) : t.kind = .read ∧ 0 < t.runs := by
  obtain ⟨r, -, ht⟩ := List.mem_flatMap.1 h
  exact mem_over ht

theorem LeasedResp.mem_writes {r : LeasedResp} {t : Transfer} (h : t ∈ r.writes) :
    t.kind = .write ∧ 0 < t.runs := by
  unfold LeasedResp.writes at h
  split at h
  · exact mem_over h
  · cases h

theorem LeasedResp.mem_transfers {batch : List LeasedResp} {t : Transfer}
    (h : t ∈ batch.flatMap LeasedResp.transfers) : 0 < t.runs := by
  obtain ⟨r, -, ht⟩ := List.mem_flatMap.1 h
  rcases List.mem_append.1 ht with ht | ht
  · exact (mem_writes ht).2
  · obtain rfl := List.mem_singleton.1 ht
    exact Nat.one_pos

theorem LeasedResp.wrs_transfers (k : WrKind) (batch : List LeasedResp) :
    wrs k (batch.flatMap LeasedResp.transfers)
      = (if .write = k then Transfer.total (batch.flatMap LeasedResp.writes) else 0)
        + if .send = k then batch.length else 0 := by
  induction batch with
  | nil => simp [Transfer.total]
  | cons r batch ih =>
    have hw : wrs k r.writes = if .write = k then Transfer.total r.writes else 0 :=
      wrs_of_kind fun t ht => (mem_writes ht).1
    have htotal : Transfer.total ((r :: batch).flatMap LeasedResp.writes)
        = Transfer.total r.writes + Transfer.total (batch.flatMap LeasedResp.writes) := by
      simp [Transfer.total]
    rw [List.flatMap_cons, wrs_append, ih, LeasedResp.transfers, wrs_append, hw, htotal]
    cases k <;> simp
    omega

/-! ## Counters -/

namespace RdmaWrStats

variable {s : RdmaWrStats} {k j : WrKind}

@[simp] theorem ofKind_onKind (f : WrClass → WrClass) :
    (s.onKind k f).ofKind j = if k = j then f (s.ofKind j) else s.ofKind j := by
  cases k <;> cases j <;> rfl

@[simp] theorem ofKind_doorbell : s.doorbell.ofKind k = s.ofKind k := by cases k <;> rfl

@[simp] theorem ofKind_reset : s.reset.ofKind k = (s.ofKind k).reset := by cases k <;> rfl

@[simp] theorem ofKind_readDb (h : BatchHist) : { s with readDb := h }.ofKind k = s.ofKind k := by
  cases k <;> rfl

@[simp] theorem ofKind_respDb (h : BatchHist) : { s with respDb := h }.ofKind k = s.ofKind k := by
  cases k <;> rfl

@[simp] theorem ofKind_recvDb (h : BatchHist) : { s with recvDb := h }.ofKind k = s.ofKind k := by
  cases k <;> rfl

@[simp] theorem ofKind_poll (n : Nat) (h : BatchHist) :
    { s with pollBatches := n, poll := h }.ofKind k = s.ofKind k := by
  cases k <;> rfl

end RdmaWrStats

namespace WrQueue

open RdmaWrStats

variable {q q' : WrQueue} {k : WrKind} {a : WrAction}

/-! ## The books -/

def known (q : WrQueue) : List Transfer :=
  q.sq ++ q.rq ++ q.cq.map (·.transfer) ++ q.comps.map (·.transfer) ++ q.counted ++ q.dropped

/-- Each gauge is ahead by the runs that do not report and by what was thrown away. -/
structure Books (q : WrQueue) : Prop where
  runs : ∀ t ∈ q.known, 0 < t.runs
  gauge : ∀ k, (q.stats.ofKind k).inflight
    = (q.unfinished k + silent k q.counted + wrs k q.dropped : Nat)

theorem books_new : Books new where
  runs := by simp [known, new]
  gauge := by
    intro k
    cases k <;> rfl

theorem Books.count {c : Completion} (h : Books q) (kept lost : List Completion) (phase : Phase)
    (hc : q.comps = c :: (kept ++ lost)) :
    Books (({ q with comps := kept, phase }.count c.transfer).drop lost) where
  runs := by
    intro t ht
    apply h.runs
    simp only [known, WrQueue.count, WrQueue.drop, hc, List.mem_append, List.map_cons,
      List.map_append, List.mem_cons] at ht ⊢
    tauto
  gauge := by
    intro k
    have hpos : 0 < c.transfer.runs := h.runs _ (by simp [known, hc])
    have hk := h.gauge k
    simp only [unfinished, hc, List.map_cons, List.map_append, wrs_append, wrs_cons,
      WrQueue.count, WrQueue.drop, ofKind_onKind, silent_append, silent_cons,
      silent_nil] at hk ⊢
    split
    · rename_i hkind
      rw [if_pos hkind] at hk
      simp only [WrClass.complete, hk]
      omega
    · rename_i hkind
      rw [if_neg hkind] at hk
      rw [hk]
      omega

theorem Books.drop (h : Books q) (lost kept : List Completion) (phase : Phase)
    (hc : q.comps = lost ++ kept) : Books ({ q with comps := kept, phase }.drop lost) where
  runs := by
    intro t ht
    apply h.runs
    simp only [known, WrQueue.drop, hc, List.mem_append, List.map_append] at ht ⊢
    tauto
  gauge := by
    intro k
    have hk := h.gauge k
    simp only [unfinished, hc, List.map_append, wrs_append, WrQueue.drop] at hk ⊢
    rw [hk]
    omega

@[simp] theorem drop_nil (q : WrQueue) : q.drop [] = q := by simp [WrQueue.drop]

/-- **What handling a completion does**: it is counted, with part of the rest of its batch thrown away
or not, or it is itself thrown away. -/
inductive HandleCases (q : WrQueue) : WrQueue → Prop where
  | count {c : Completion} {kept lost : List Completion} {phase : Phase}
      (comps : q.comps = c :: (kept ++ lost))
      (spares : c.ok = true ∧ Spares q.phase c.transfer (kept ++ lost) ↔ lost = []) :
      HandleCases q (({ q with comps := kept, phase }.count c.transfer).drop lost)
  | drop {c : Completion} {lost kept : List Completion} {phase : Phase}
      (comps : q.comps = c :: (lost ++ kept))
      (spares : ¬ (c.ok = true ∧ Spares q.phase c.transfer (lost ++ kept))) :
      HandleCases q ({ q with comps := kept, phase }.drop (c :: lost))

theorem handle_cases (hs : q.handle = some q') : HandleCases q q' := by
  unfold WrQueue.handle at hs
  cases hc : q.comps with
  | nil => simp [hc] at hs
  | cons c rest =>
    have hcount : (c.ok = true ∧ Spares q.phase c.transfer rest) →
        HandleCases q ({ q with comps := rest }.count c.transfer) := by
      intro hsp
      have h : HandleCases q (({ q with comps := rest }.count c.transfer).drop []) :=
        .count (by simp [hc]) (by simpa using hsp)
      rwa [drop_nil] at h
    have hfail : c.ok = false →
        HandleCases q ({ q with comps := [], phase := .ended }.drop (c :: rest)) := by
      intro hok
      exact .drop (by simp [hc]) (by simp [hok])
    rw [hc] at hs
    dsimp only at hs
    split at hs
    · rename_i hphase
      split at hs
      · rename_i hok
        obtain rfl := Option.some.inj hs
        exact hcount ⟨hok, by simp [Spares, hphase]⟩
      · rename_i hok
        obtain rfl := Option.some.inj hs
        exact hfail (by simpa using hok)
    · rename_i kind hphase
      split at hs
      · rename_i hok
        obtain rfl := Option.some.inj hs
        exact hfail hok
      · rename_i hok
        rw [Bool.not_eq_false] at hok
        split at hs
        · -- the awaited completion: whatever follows it is thrown away
          rename_i hkind
          obtain rfl := Option.some.inj hs
          refine @HandleCases.count q c [] rest .setup hc ?_
          simp [Spares, hphase, hkind, hok]
        · rename_i hkind
          have hskip : ¬ (c.transfer.kind = .send ∨ c.transfer.kind = .write) →
              HandleCases q ({ q with comps := rest }.drop [c]) := by
            intro hresp
            refine @HandleCases.drop q c [] rest q.phase hc ?_
            simp [Spares, hphase, hkind, hresp]
          have hresp : (c.transfer.kind = .send ∨ c.transfer.kind = .write) →
              HandleCases q ({ q with comps := rest }.count c.transfer) := by
            intro hresp
            exact hcount ⟨hok, by simp [Spares, hphase, hkind, hresp]⟩
          cases hk : c.transfer.kind with
          | send | write =>
            rw [hk] at hs
            obtain rfl := Option.some.inj hs
            exact hresp (by simp [hk])
          | recv | read =>
            rw [hk] at hs
            obtain rfl := Option.some.inj hs
            exact hskip (by simp [hk])
    · cases hs

/-! ## All that a step can do -/

inductive Stepped (q : WrQueue) : WrAction → WrQueue → Prop where
  | posts {a : WrAction} {q' : WrQueue} (sq rq : List Transfer) (sent : q'.sq = q.sq ++ sq)
      (received : q'.rq = q.rq ++ rq)
      (rest : (q'.cq, q'.comps, q'.counted, q'.dropped) = (q.cq, q.comps, q.counted, q.dropped))
      (runs : ∀ t ∈ sq ++ rq, 0 < t.runs)
      (gauge : ∀ k, (q'.stats.ofKind k).inflight
        = (q.stats.ofKind k).inflight + (wrs k sq + wrs k rq : Nat))
      (ok : q.CountsAll a) : Stepped q a q'
  | moves {a : WrAction} {q' : WrQueue} (records : (q'.counted, q'.dropped) = (q.counted, q.dropped))
      (perm : (q'.sq ++ q'.rq ++ q'.cq.map (·.transfer) ++ q'.comps.map (·.transfer)).Perm
        (q.sq ++ q.rq ++ q.cq.map (·.transfer) ++ q.comps.map (·.transfer)))
      (gauge : ∀ k, (q'.stats.ofKind k).inflight = (q.stats.ofKind k).inflight)
      (ok : q.CountsAll a) : Stepped q a q'
  | handles {q' : WrQueue} (cases : HandleCases q q') : Stepped q .handle q'
  | aborts : Stepped q .abort q.abort

theorem postReadsBatch_spec (q : WrQueue) (batch : List LeasedRead) :
    Stepped q (.postReads batch) (q.postReadsBatch batch) := by
  unfold WrQueue.postReadsBatch
  split
  · exact .moves rfl (.refl _) (fun _ => rfl) trivial
  · refine .posts (batch.flatMap LeasedRead.transfers) [] rfl (by simp) rfl ?_ ?_ trivial
    · intro t ht
      rw [List.append_nil] at ht
      exact (LeasedRead.mem_transfers ht).2
    · intro k
      rw [wrs_of_kind fun t ht => (LeasedRead.mem_transfers ht).1]
      simp only [ofKind_readDb, ofKind_doorbell, ofKind_onKind, wrs_nil]
      split <;> simp [WrClass.postN]

theorem postResponsesBatch_spec (q : WrQueue) (batch : List LeasedResp) :
    Stepped q (.postResponses batch) (q.postResponsesBatch batch) := by
  unfold WrQueue.postResponsesBatch
  split
  · exact .moves rfl (.refl _) (fun _ => rfl) trivial
  · refine .posts (batch.flatMap LeasedResp.transfers) [] rfl (by simp) rfl ?_ ?_ trivial
    · intro t ht
      rw [List.append_nil] at ht
      exact LeasedResp.mem_transfers ht
    · intro k
      rw [LeasedResp.wrs_transfers]
      cases k <;> simp [WrClass.postN]

theorem drainInto_spec (hs : q.drainInto = some q') : Stepped q .drainInto q' := by
  unfold WrQueue.drainInto at hs
  obtain ⟨hcomps, hs⟩ := Option.ite_none_right_eq_some.1 hs
  dsimp only at hs
  split at hs
  · obtain rfl := Option.some.inj hs
    exact .moves rfl (by simp [hcomps]) (fun k => by dsimp only; split <;> simp) trivial
  · obtain rfl := Option.some.inj hs
    exact .moves rfl (by simp [hcomps]) (fun k => by dsimp only; split <;> simp) trivial
  · cases hs

theorem step_spec (hs : q.step a = some q') : Stepped q a q' := by
  cases a with
  | postRecv idx =>
    obtain rfl := Option.some.inj hs
    refine .posts [] [{ kind := .recv, low := idx, runs := 1 }] (by simp [WrQueue.postRecv]) rfl rfl
      (by simp) (fun k => ?_) trivial
    simp only [WrQueue.postRecv, ofKind_recvDb, ofKind_onKind, wrs_nil, wrs_cons]
    split <;> simp [WrClass.post, WrClass.postN]
  | postReadCdata =>
    obtain rfl := Option.some.inj hs
    refine .posts [{ kind := .read, low := 0, runs := 1 }] [] rfl (by simp [WrQueue.postReadCdata]) rfl
      (by simp) (fun k => ?_) trivial
    simp only [WrQueue.postReadCdata, sqPost, ofKind_doorbell, ofKind_onKind, wrs_nil, wrs_cons]
    split <;> simp [WrClass.post, WrClass.postN]
  | postReads batch =>
    obtain rfl := Option.some.inj hs
    exact postReadsBatch_spec q batch
  | postResponses batch =>
    obtain rfl := Option.some.inj hs
    exact postResponsesBatch_spec q batch
  | nicSend =>
    simp only [step, WrQueue.nicSend] at hs
    split at hs
    · cases hs
    · rename_i t rest hsq
      obtain rfl := Option.some.inj hs
      refine .moves rfl (List.perm_iff_count.2 fun u => ?_) (fun _ => rfl) trivial
      simp only [hsq, List.map_append, List.map_cons, List.map_nil, List.count_append,
        List.count_cons, List.count_nil]
      omega
  | nicRecv idx =>
    obtain ⟨hmem, rfl⟩ := of_guard hs
    refine .moves rfl (List.perm_iff_count.2 fun u => ?_) (fun _ => rfl) trivial
    have hcount := (List.perm_cons_erase hmem).count_eq u
    simp only [List.map_append, List.map_cons, List.map_nil, List.count_append,
      List.count_cons, List.count_nil] at hcount ⊢
    omega
  | nicFlush =>
    obtain rfl := Option.some.inj hs
    refine .moves rfl (List.perm_iff_count.2 fun u => ?_) (fun _ => rfl) trivial
    simp only [WrQueue.nicFlush, List.map_append, List.map_map, Function.comp_def, List.map_id',
      List.count_append, List.count_nil]
    omega
  | await kind | reap =>
    obtain ⟨-, rfl⟩ := of_guard hs
    exact .moves rfl (.refl _) (fun _ => rfl) trivial
  | drainInto => exact drainInto_spec hs
  | handle => exact .handles (handle_cases hs)
  | abort =>
    obtain ⟨-, rfl⟩ := of_guard hs
    exact .aborts
  | clear =>
    obtain rfl := Option.some.inj hs
    exact .moves rfl (.refl _) (fun k => by rw [ofKind_reset]; rfl) trivial

theorem books_step (h : Books q) (hs : q.step a = some q') : Books q' := by
  cases step_spec hs with
  | posts sq rq sent received rest runs gauge =>
    simp only [Prod.mk.injEq] at rest
    obtain ⟨hcq, hcomps, hcounted, hdropped⟩ := rest
    constructor
    · intro t ht
      have hk := h.runs t
      have hp := runs t
      simp only [known, sent, received, hcq, hcomps, hcounted, hdropped, List.mem_append] at ht hk hp
      tauto
    · intro k
      have hk := h.gauge k
      simp only [unfinished, sent, received, hcq, hcomps, hcounted, hdropped, wrs_append] at hk ⊢
      rw [gauge, hk]
      omega
  | moves records perm gauge =>
    obtain ⟨hcounted, hdropped⟩ := Prod.mk.inj records
    constructor
    · intro t ht
      apply h.runs
      rw [known, List.append_assoc, List.mem_append] at ht ⊢
      rwa [perm.mem_iff, hcounted, hdropped] at ht
    · intro k
      have hwrs : q'.unfinished k = q.unfinished k := (perm.map _).sum_eq
      rw [gauge, h.gauge, hcounted, hdropped, hwrs]
  | handles cases =>
    cases cases with
    | count hc _ => exact h.count _ _ _ hc
    | drop hc _ => exact h.drop _ _ _ hc
  | aborts => exact h.drop q.comps [] .ended (by simp)

/-! ## Exact gauges -/

/-- Everything was counted, each transfer having one run. -/
structure AllCounted (q : WrQueue) : Prop where
  single : ∀ t ∈ q.counted, t.runs = 1
  kept : q.dropped = []

/-- **The gauges are exact when all that was counted had one run and nothing was thrown away.** -/
theorem gaugesExact_iff (h : Books q) : q.GaugesExact ↔ q.AllCounted := by
  have hcounted : ∀ t ∈ q.counted, 0 < t.runs := fun t ht => h.runs t (by simp [known, ht])
  have hdropped : ∀ t ∈ q.dropped, 0 < t.runs := fun t ht => h.runs t (by simp [known, ht])
  have hsplit : q.GaugesExact ↔ (∀ k, silent k q.counted = 0) ∧ ∀ k, wrs k q.dropped = 0 := by
    rw [GaugesExact, ← forall_and]
    refine forall_congr' fun k => ?_
    rw [h.gauge k]
    omega
  rw [hsplit, silent_eq_zero hcounted, wrs_eq_zero hdropped]
  exact ⟨fun hc => ⟨hc.1, hc.2⟩, fun hc => ⟨hc.single, hc.kept⟩⟩

theorem step_records (hs : q.step a = some q') :
    ∃ one lost, q'.counted = q.counted ++ one ∧ q'.dropped = q.dropped ++ lost ∧
      (q.CountsAll a ↔ (∀ t ∈ one, t.runs = 1) ∧ lost = []) := by
  cases step_spec hs with
  | posts sq rq sent received rest runs gauge ok =>
    simp only [Prod.mk.injEq] at rest
    exact ⟨[], [], by simp [rest], by simp [rest], by simp [ok]⟩
  | moves records perm gauge ok =>
    obtain ⟨hcounted, hdropped⟩ := Prod.mk.inj records
    exact ⟨[], [], by simp [hcounted], by simp [hdropped], by simp [ok]⟩
  | aborts =>
    exact ⟨[], q.comps.map (·.transfer), by simp [WrQueue.abort, WrQueue.drop], rfl, by simp [CountsAll]⟩
  | handles cases =>
    cases cases with
    | @count c kept lost phase hc hspares =>
      refine ⟨[c.transfer], lost.map (·.transfer), rfl, rfl, ?_⟩
      have hiff : q.HandlesOne ↔
          c.transfer.runs = 1 ∧ (c.ok = true ∧ Spares q.phase c.transfer (kept ++ lost)) := by
        simp only [HandlesOne, hc, List.head?_cons, Option.mem_def, Option.some.injEq, forall_eq',
          List.tail_cons]
        tauto
      rw [CountsAll, hiff, hspares]
      simp
    | @drop c lost kept phase hc hspares =>
      refine ⟨[], (c :: lost).map (·.transfer), by simp [WrQueue.drop], rfl, ?_⟩
      have hnot : ¬ q.HandlesOne := by
        intro h
        have hone := h c (by simp [hc])
        rw [hc, List.tail_cons] at hone
        exact hspares ⟨hone.1, hone.2.2⟩
      simp [CountsAll, hnot]

end WrQueue

open WrQueue

/-- **The gauges are exact at the end of a run exactly when all its steps counted what they handled**:
every completion that was handled had succeeded and stood for a single work request, and none was
thrown away by the bootstrap or by a loop that ended. -/
theorem gauges_exact_iff (as : List WrAction) (q : WrQueue)
    (hrun : runFrom WrQueue.step WrQueue.new as = some q) :
    q.GaugesExact ↔ StepsOk WrQueue.step WrQueue.CountsAll WrQueue.new as := by
  have hbooks : Books q := runFrom_invariant (fun h hs => books_step h hs) books_new hrun
  rw [gaugesExact_iff hbooks]
  have hcounted : ∀ q : WrQueue, q.AllCounted ↔ (∀ t ∈ q.counted, t.runs = 1) ∧ q.dropped = [] :=
    fun q => ⟨fun h => ⟨h.single, h.kept⟩, fun h => ⟨h.1, h.2⟩⟩
  rw [@runFrom_good_iff _ _ WrQueue.step (fun _ => True) AllCounted CountsAll ?_ as _ _ trivial hrun]
  · exact and_iff_right ⟨by simp [new], rfl⟩
  · intro s a s' _ hs
    obtain ⟨one, lost, hone, hlost, hiff⟩ := step_records hs
    refine ⟨trivial, ?_⟩
    rw [hcounted, hcounted, hone, hlost, hiff]
    simp only [List.mem_append, or_imp, forall_and, List.append_eq_nil_iff]
    tauto

/-- A queue of one slot is set up, its Connect answered, and a write capsule received. -/
def connectThenWrite : List WrAction :=
  [.postRecv 0, .await .recv, .nicRecv 0, .drainInto, .handle, .postRecv 0,
    .postResponses [⟨0, [], 0⟩], .reap, .nicSend, .drainInto, .handle,
    .nicRecv 0, .drainInto, .handle, .postRecv 0]

def pulled (segs : List (List UInt8)) (len : Nat) : List WrAction :=
  [.postReads [⟨0, segs, len⟩], .nicSend, .drainInto, .handle]

def pageRun (n : Nat) : List UInt8 := List.replicate (n * 4096) 0

theorem gauges_exact_iff_one_run :
    ∃ q, runFrom WrQueue.step WrQueue.new (connectThenWrite ++ pulled [pageRun 2] 8192) = some q ∧
      q.GaugesExact := by
  obtain ⟨q, hq⟩ := Option.isSome_iff_exists.1 (by decide +kernel :
    (runFrom WrQueue.step WrQueue.new (connectThenWrite ++ pulled [pageRun 2] 8192)).isSome = true)
  exact ⟨q, hq, (gauges_exact_iff _ q hq).2 (by decide +kernel)⟩

/-- A lease of two pages in two runs leaves the READ gauge at one with nothing of that kind posted. -/
theorem scattered_lease_leaves_read_gauge :
    (runFrom WrQueue.step WrQueue.new (connectThenWrite ++ pulled [pageRun 1, pageRun 1] 8192)).map
        (fun q => (q.unfinished .read, q.stats.gauge .read)) = some (0, 1) := by
  decide +kernel

end Ioutgt.Rdma
