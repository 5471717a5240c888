import Ioutgt.Lib.Fold
import Ioutgt.Cpus.Spread

/-!
# The locality order of a node

Whatever the cluster and sibling masks are, the order lists CPUs of the node, none twice, and at
least one. It lists all of them when every mask that is not empty holds its own CPU.

* `takeAtom_spec`, `takeCluster_spec`: one round of the two loops;
* `fillOrder_spec`, `mem_fillOrder`: the whole order.
-/

namespace Ioutgt.Cpus

open Lib

variable {topo : CpuTopology} {node cluster : CpuSet} {f : Filling}

/-- Every non-empty cluster and sibling mask holds its own CPU. -/
structure CpuTopology.MasksOk (topo : CpuTopology) : Prop where
  cluster : ∀ cpu c, (topo.cluster.getD cpu .new).test c = true →
    (topo.cluster.getD cpu .new).test cpu = true
  sibling : ∀ cpu c, (topo.sibling.getD cpu .new).test c = true →
    (topo.sibling.getD cpu .new).test cpu = true

namespace Filling

/-- The order has CPUs of the node, none twice, and they are the visited ones. -/
structure Ok (node : CpuSet) (f : Filling) : Prop where
  mem : ∀ c, f.visited.test c = true ↔ c ∈ f.order
  nodup : f.order.Nodup
  inside : ∀ c ∈ f.order, node.test c = true

theorem Ok.start (node : CpuSet) : Ok node ⟨[], .new⟩ :=
  ⟨fun c => by simp, List.nodup_nil, fun _ h => nomatch h⟩

theorem Ok.push (h : f.Ok node) {c : Nat} (hc : f.visited.test c = false)
    (hn : node.test c = true) : (f.push c).Ok node where
  mem d := by
    simp only [Filling.push, CpuSet.test_set, Bool.or_eq_true, h.mem d, decide_eq_true_eq,
      List.mem_append, List.mem_singleton]
  nodup := by
    refine h.nodup.append (List.nodup_singleton c) fun d hd hdc => ?_
    rw [List.mem_singleton.1 hdc, ← h.mem, hc] at hd
    cases hd
  inside d hd := by
    rcases List.mem_append.1 hd with hd | hd
    · exact h.inside d hd
    · rw [List.mem_singleton.1 hd]
      exact hn

theorem Ok.pushAll {l : List Nat} (h : f.Ok node) (hl : l.Nodup)
    (hnew : ∀ c ∈ l, f.visited.test c = false ∧ node.test c = true) :
    (l.foldl Filling.push f).Ok node ∧ (l.foldl Filling.push f).order = f.order ++ l := by
  induction l generalizing f with
  | nil => exact ⟨h, (List.append_nil _).symm⟩
  | cons c l ih =>
    obtain ⟨hc, hl⟩ := List.nodup_cons.1 hl
    obtain ⟨⟨hv, hn⟩, hrest⟩ := List.forall_mem_cons.1 hnew
    obtain ⟨hok, horder⟩ := ih (h.push hv hn) hl fun d hd => by
      refine ⟨?_, (hrest d hd).2⟩
      have hne : d ≠ c := fun heq => hc (heq ▸ hd)
      simp [Filling.push, (hrest d hd).1, hne]
    refine ⟨hok, ?_⟩
    rw [List.foldl_cons, horder, Filling.push, List.append_assoc]
    rfl

end Filling

/-! ## One round -/

section within

variable {mask scope visited : CpuSet} {cpu : Nat}

theorem within_test (hs : scope.test cpu = true) (hv : visited.test cpu = false) {d : Nat}
    (h : (within mask scope visited cpu).test d = true) :
    scope.test d = true ∧ visited.test d = false := by
  unfold within at h
  dsimp only at h
  split_ifs at h with he
  · rw [CpuSet.test_set, CpuSet.isEmpty_iff.1 he d, Bool.false_or, decide_eq_true_eq] at h
    rw [h]
    exact ⟨hs, hv⟩
  · simp only [CpuSet.test_andnot, CpuSet.test_and, Bool.and_eq_true, Bool.not_eq_true'] at h
    exact ⟨h.1.2, h.2⟩

theorem within_nonempty (mask scope visited : CpuSet) (cpu : Nat) :
    ∃ d, (within mask scope visited cpu).test d = true := by
  unfold within
  dsimp only
  split_ifs with he
  · exact ⟨cpu, by simp⟩
  · exact CpuSet.exists_of_not_isEmpty (Bool.eq_false_iff.2 he)

theorem within_self (hmask : ∀ d, mask.test d = true → mask.test cpu = true)
    (hs : scope.test cpu = true) (hv : visited.test cpu = false) :
    (within mask scope visited cpu).test cpu = true := by
  unfold within
  dsimp only
  split_ifs with he
  · simp
  · obtain ⟨d, hd⟩ := CpuSet.exists_of_not_isEmpty (Bool.eq_false_iff.2 he)
    simp only [CpuSet.test_andnot, CpuSet.test_and, Bool.and_eq_true] at hd
    rw [CpuSet.test_andnot, CpuSet.test_and, hmask d hd.1.1, hs, hv]
    rfl

end within

theorem takeAtom_spec (topo : CpuTopology) (h : f.Ok node)
    (hcl : ∀ d, cluster.test d = true → node.test d = true) {c : Nat}
    (hc : cluster.test c = true) :
    (takeAtom topo cluster f c).Ok node ∧ f.order ⊆ (takeAtom topo cluster f c).order ∧
      (takeAtom topo cluster f c).order ≠ [] ∧
      (topo.MasksOk → c ∈ (takeAtom topo cluster f c).order) := by
  unfold takeAtom
  split_ifs with hv
  · have hmem := (h.mem c).1 hv
    exact ⟨h, fun _ hd => hd, List.ne_nil_of_mem hmem, fun _ => hmem⟩
  · have hv : f.visited.test c = false := Bool.eq_false_iff.2 hv
    obtain ⟨hok, horder⟩ := h.pushAll (CpuSet.iter_nodup (atomOf topo cluster f.visited c))
      fun d hd => by
        obtain ⟨hin, hnew⟩ := within_test hc hv (CpuSet.mem_iter.1 hd)
        exact ⟨hnew, hcl d hin⟩
    obtain ⟨d, hd⟩ := within_nonempty (topo.sibling.getD c .new) cluster f.visited c
    refine ⟨hok, ?_, ?_, fun hm => ?_⟩ <;> rw [horder]
    · exact List.subset_append_left ..
    · exact List.ne_nil_of_mem (List.mem_append_right _ (CpuSet.mem_iter.2 hd))
    · exact List.mem_append_right _ (CpuSet.mem_iter.2 (within_self (hm.sibling c) hc hv))

theorem CpuTopology.MasksOk.cluster_or_sibling (hm : topo.MasksOk) (cpu d : Nat)
    (h : (if (topo.cluster.getD cpu .new).isEmpty then topo.sibling.getD cpu .new
      else topo.cluster.getD cpu .new).test d = true) :
    (if (topo.cluster.getD cpu .new).isEmpty then topo.sibling.getD cpu .new
      else topo.cluster.getD cpu .new).test cpu = true := by
  split_ifs at h ⊢ with he
  · exact hm.sibling cpu d h
  · exact hm.cluster cpu d h

theorem takeCluster_spec (topo : CpuTopology) (h : f.Ok node) {cpu : Nat}
    (hn : node.test cpu = true) :
    (takeCluster topo node f cpu).Ok node ∧ f.order ⊆ (takeCluster topo node f cpu).order ∧
      (takeCluster topo node f cpu).order ≠ [] ∧
      (topo.MasksOk → cpu ∈ (takeCluster topo node f cpu).order) := by
  unfold takeCluster
  split_ifs with hv
  · have hmem := (h.mem cpu).1 hv
    exact ⟨h, fun _ hd => hd, List.ne_nil_of_mem hmem, fun _ => hmem⟩
  · have hv : f.visited.test cpu = false := Bool.eq_false_iff.2 hv
    have hcl : ∀ d, (clusterOf topo node f.visited cpu).test d = true → node.test d = true :=
      fun d hd => (within_test hn hv hd).1
    obtain ⟨hok, hsub, hne, hall⟩ := foldl_done (takeAtom topo (clusterOf topo node f.visited cpu))
      (fun done f' => f'.Ok node ∧ f.order ⊆ f'.order ∧ (done ≠ [] → f'.order ≠ []) ∧
        (topo.MasksOk → ∀ c ∈ done, c ∈ f'.order))
      (clusterOf topo node f.visited cpu).iter f
      ⟨h, fun _ hd => hd, fun hne => absurd rfl hne, fun _ _ hc => nomatch hc⟩
      (by
        rintro done c rest f' hl ⟨hok, hsub, -, hdone⟩
        have hc : (clusterOf topo node f.visited cpu).test c = true :=
          CpuSet.mem_iter.1 (hl ▸ List.mem_append_right _ (List.mem_cons_self ..))
        obtain ⟨hok', hsub', hne', hself'⟩ := takeAtom_spec topo hok hcl hc
        refine ⟨hok', fun e he => hsub' (hsub he), fun _ => hne', fun hm e he => ?_⟩
        rcases List.mem_append.1 he with he | he
        · exact hsub' (hdone hm e he)
        · rw [List.mem_singleton.1 he]
          exact hself' hm)
    obtain ⟨d, hd⟩ := within_nonempty (if (topo.cluster.getD cpu .new).isEmpty then
      topo.sibling.getD cpu .new else topo.cluster.getD cpu .new) node f.visited cpu
    refine ⟨hok, hsub, hne (List.ne_nil_of_mem (CpuSet.mem_iter.2 hd)),
      fun hm => hall hm cpu (CpuSet.mem_iter.2 ?_)⟩
    exact within_self (hm.cluster_or_sibling cpu) hn hv

/-! ## The whole order -/

theorem fillOrder_spec (node : CpuSet) (topo : CpuTopology) :
    (fillOrder node topo).Nodup ∧ (∀ c ∈ fillOrder node topo, node.test c = true) ∧
      (node.isEmpty = false → fillOrder node topo ≠ []) ∧
      (topo.MasksOk → ∀ c, node.test c = true → c ∈ fillOrder node topo) := by
  obtain ⟨hok, hne, hall⟩ := foldl_done (takeCluster topo node)
    (fun done f => f.Ok node ∧ (done ≠ [] → f.order ≠ []) ∧
      (topo.MasksOk → ∀ c ∈ done, c ∈ f.order)) node.iter ⟨[], .new⟩
    ⟨.start node, fun hne => absurd rfl hne, fun _ _ hc => nomatch hc⟩
    (by
      rintro done c rest f hl ⟨hok, -, hdone⟩
      have hc : node.test c = true :=
        CpuSet.mem_iter.1 (hl ▸ List.mem_append_right _ (List.mem_cons_self ..))
      obtain ⟨hok', hsub, hne, hself⟩ := takeCluster_spec topo hok hc
      refine ⟨hok', fun _ => hne, fun hm e he => ?_⟩
      rcases List.mem_append.1 he with he | he
      · exact hsub (hdone hm e he)
      · rw [List.mem_singleton.1 he]
        exact hself hm)
  refine ⟨hok.nodup, hok.inside, fun he => hne fun hnil => ?_,
    fun hm c hc => hall hm c (CpuSet.mem_iter.2 hc)⟩
  rw [CpuSet.isEmpty_iff_iter.2 hnil] at he
  cases he

theorem mem_fillOrder (hm : topo.MasksOk) {c : Nat} :
    c ∈ fillOrder node topo ↔ node.test c = true :=
  ⟨(fillOrder_spec node topo).2.1 c, (fillOrder_spec node topo).2.2.2 hm c⟩

theorem fillOrder_length_le (node : CpuSet) (topo : CpuTopology) :
    (fillOrder node topo).length ≤ node.weight := by
  obtain ⟨hnodup, hin, -, -⟩ := fillOrder_spec node topo
  rw [CpuSet.weight_eq]
  exact (List.subperm_of_subset hnodup fun c hc => CpuSet.mem_iter.2 (hin c hc)).length_le

theorem fillOrder_length (hm : topo.MasksOk) : (fillOrder node topo).length = node.weight := by
  rw [CpuSet.weight_eq]
  refine ((List.perm_ext_iff_of_nodup (fillOrder_spec node topo).1 (CpuSet.iter_nodup node)).2
    fun c => ?_).length_eq
  rw [mem_fillOrder hm, CpuSet.mem_iter]

end Ioutgt.Cpus
