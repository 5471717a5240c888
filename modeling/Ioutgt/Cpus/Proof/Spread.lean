import Ioutgt.Lib.Tally
import Ioutgt.Cpus.Proof.PackNode

/-!
# The groups of the machine

Seats add up to the group count, so the blocks of the nodes are as many groups as were asked for;
the blocks are apart because the nodes are. Packing whole nodes assigns every node to one group.

* `apportion_spec`: as many seats as asked for, at least one for each node;
* `packWholeNodes_spec`: every group is the union of the nodes assigned to it;
* `spreadCpus_blocks`, `spreadCpus_whole`: what `spread_cpus` returns with enough groups, and with
  fewer groups than nodes;
* `trailing_iff`: when the empty groups of a sequence of blocks come last.
-/

namespace Ioutgt.Cpus

open Lib

variable {ε : Type} {topo : CpuTopology} {node : CpuSet} {groups block : List CpuSet}
  {seats n : Nat} {blocks : List (List CpuSet)}

def CpuSet.Apart (s t : CpuSet) : Prop := ∀ c, s.test c = true → t.test c = true → False

/-- Node masks are disjoint and cover the possible CPUs. -/
structure CpuTopology.NodesOk (topo : CpuTopology) : Prop where
  apart : topo.nodeToCpus.Pairwise CpuSet.Apart
  cover : ∀ c, topo.possible.test c = true → ∃ node ∈ topo.nodeToCpus, node.test c = true

/-! ## Nodes and weights -/

namespace CpuTopology

theorem mem_nodes (h : node ∈ topo.nodes) :
    node.isEmpty = false ∧ ∀ c, node.test c = true → topo.possible.test c = true := by
  obtain ⟨hmem, hne⟩ := List.mem_filter.1 h
  obtain ⟨mask, -, rfl⟩ := List.mem_map.1 hmem
  refine ⟨by simpa using hne, fun c hc => ?_⟩
  rw [CpuSet.test_and, Bool.and_eq_true] at hc
  exact hc.2

theorem NodesOk.nodes_apart (h : topo.NodesOk) : topo.nodes.Pairwise CpuSet.Apart := by
  refine List.Pairwise.filter _ (List.pairwise_map.2 (h.apart.imp fun hab c ha hb => ?_))
  rw [CpuSet.test_and, Bool.and_eq_true] at ha hb
  exact hab c ha.1 hb.1

theorem NodesOk.possible_iff (h : topo.NodesOk) (c : Nat) :
    topo.possible.test c = true ↔ ∃ node ∈ topo.nodes, node.test c = true := by
  constructor
  · intro hc
    obtain ⟨mask, hmask, hin⟩ := h.cover c hc
    have hboth : (mask.and topo.possible).test c = true := by
      rw [CpuSet.test_and, hin, hc]
      rfl
    refine ⟨mask.and topo.possible, List.mem_filter.2 ⟨List.mem_map_of_mem hmask, ?_⟩, hboth⟩
    rw [CpuSet.not_isEmpty hboth]
    rfl
  · rintro ⟨node, hnode, hc⟩
    exact (mem_nodes hnode).2 c hc

theorem weights_length (topo : CpuTopology) : topo.weights.length = topo.nodes.length := by
  unfold weights
  dsimp only
  split <;> simp

theorem weights_sum_pos (h : topo.nodes ≠ []) : 0 < topo.weights.sum := by
  obtain ⟨node, hnode⟩ := List.exists_mem_of_ne_nil _ h
  have hpos : ∃ w ∈ topo.weights, w ≠ 0 := by
    unfold weights
    dsimp only
    split_ifs with hall
    · refine ⟨node.weight, List.mem_map_of_mem hnode, fun h0 => ?_⟩
      rw [CpuSet.weight_eq_zero_iff, (mem_nodes hnode).1] at h0
      cases h0
    · simpa using hall
  obtain ⟨w, hw, hne⟩ := hpos
  exact Nat.lt_of_lt_of_le (Nat.pos_of_ne_zero hne) (List.le_sum_of_mem hw)

end CpuTopology

namespace CpuTopology

theorem weights_of_present
    (hpresent : ∀ c, topo.possible.test c = true → topo.present.test c = true) :
    topo.weights = topo.nodes.map CpuSet.weight := by
  have hsame : topo.nodes.map (fun n => (n.and topo.present).weight) =
      topo.nodes.map CpuSet.weight := by
    refine List.map_congr_left fun node hnode => CpuSet.weight_congr fun c => ?_
    rw [CpuSet.test_and, Bool.and_eq_left_iff_imp]
    exact fun hc => hpresent c ((mem_nodes hnode).2 c hc)
  rw [weights, hsame, ite_self]

theorem weights_pos (topo : CpuTopology)
    (hpresent : ∀ c, topo.possible.test c = true → topo.present.test c = true) (i : Nat)
    (hi : i < topo.nodes.length) : 0 < topo.weights.getD i 0 := by
  rw [weights_of_present hpresent, List.getD_eq_getElem?_getD, List.getElem?_map,
    List.getElem?_eq_getElem hi]
  refine Nat.pos_of_ne_zero fun hzero => ?_
  have := CpuSet.weight_eq_zero_iff.1 hzero
  rw [(mem_nodes (List.getElem_mem hi)).1] at this
  cases this

/-- The products of the spare groups with the CPUs of a node fit a `usize`. -/
def SeatsCountable (topo : CpuTopology) (n : Nat) : Prop :=
  ∀ node ∈ topo.nodes, (n - topo.nodes.length) * (node.and topo.present).weight < 2 ^ 64 ∧
    ((∀ c, topo.possible.test c = true → topo.present.test c = false) →
      (n - topo.nodes.length) * node.weight < 2 ^ 64)

theorem NodesOk.seatsCountable_iff (h : topo.NodesOk) : topo.SeatsCountable n ↔
    ∀ w ∈ topo.weights, (n - topo.nodes.length) * w < 2 ^ 64 := by
  have hnone : (topo.nodes.map fun n => (n.and topo.present).weight).all (· == 0) = true ↔
      ∀ c, topo.possible.test c = true → topo.present.test c = false := by
    simp only [List.all_map, List.all_eq_true, Function.comp_apply, beq_iff_eq,
      CpuSet.weight_eq_zero_iff, CpuSet.isEmpty_iff, CpuSet.test_and, Bool.and_eq_false_imp,
      h.possible_iff]
    constructor
    · rintro hall c ⟨node, hnode, hc⟩
      exact hall node hnode c hc
    · exact fun hall node hnode c hc => hall c ⟨node, hnode, hc⟩
  unfold SeatsCountable weights
  dsimp only
  split_ifs with hall
  · rw [List.forall_mem_map]
    refine forall₂_congr fun node hnode => ⟨fun hfit => hfit.2 (hnone.1 hall), fun hfit =>
      ⟨?_, fun _ => hfit⟩⟩
    have hzero : (node.and topo.present).weight = 0 := by
      simpa using List.all_eq_true.1 hall _ (List.mem_map_of_mem hnode)
    rw [hzero, Nat.mul_zero]
    decide
  · rw [List.forall_mem_map]
    exact forall₂_congr fun node hnode => and_iff_left fun habsent => absurd (hnone.2 habsent) hall

end CpuTopology

/-! ## Members -/

theorem memAt_iff {j c : Nat} :
    memAt groups j c = true ↔ ∃ g, groups[j]? = some g ∧ g.test c = true := by
  rw [memAt, List.getD_eq_getElem?_getD]
  cases groups[j]? with
  | none => exact iff_of_false (fun h => by cases h) (by simp)
  | some g => simp

theorem exists_memAt {c : Nat} :
    (∃ j, memAt groups j c = true) ↔ ∃ g ∈ groups, g.test c = true := by
  simp only [memAt_iff, List.mem_iff_getElem?]
  constructor
  · rintro ⟨j, g, hj, hg⟩
    exact ⟨g, ⟨j, hj⟩, hg⟩
  · rintro ⟨g, ⟨j, hj⟩, hg⟩
    exact ⟨j, g, hj, hg⟩

theorem pairwise_apart_iff : groups.Pairwise CpuSet.Apart ↔
    ∀ i j c, memAt groups i c = true → memAt groups j c = true → i = j := by
  rw [List.pairwise_iff_getElem]
  simp only [memAt_iff]
  constructor
  · rintro h i j c ⟨g, hi, hg⟩ ⟨g', hj, hg'⟩
    obtain ⟨hil, rfl⟩ := List.getElem?_eq_some_iff.1 hi
    obtain ⟨hjl, rfl⟩ := List.getElem?_eq_some_iff.1 hj
    rcases Nat.lt_trichotomy i j with hlt | heq | hlt
    · exact (h i j hil hjl hlt c hg hg').elim
    · exact heq
    · exact (h j i hjl hil hlt c hg' hg).elim
  · intro h i j hi hj hlt c hci hcj
    exact Nat.ne_of_lt hlt (h i j c ⟨_, List.getElem?_eq_getElem hi, hci⟩
      ⟨_, List.getElem?_eq_getElem hj, hcj⟩)

/-! ## Seats -/

theorem bump_spec {idx out : List Nat} (h : ∀ i ∈ idx, i < out.length) :
    (idx.foldl (fun out i => out.modify i (· + 1)) out).length = out.length ∧
      (idx.foldl (fun out i => out.modify i (· + 1)) out).sum = out.sum + idx.length ∧
      ∀ j, (idx.foldl (fun out i => out.modify i (· + 1)) out).getD j 0 =
        out.getD j 0 + idx.count j := by
  induction idx generalizing out with
  | nil => exact ⟨rfl, rfl, fun _ => rfl⟩
  | cons i idx ih =>
    obtain ⟨hi, hrest⟩ := List.forall_mem_cons.1 h
    have hbumped : ∀ j ∈ idx, j < (out.modify i (· + 1)).length := by simpa using hrest
    obtain ⟨hlen, hsum, hget⟩ := ih hbumped
    rw [List.length_modify] at hlen
    rw [sum_modify hi] at hsum
    refine ⟨hlen, ?_, fun j => ?_⟩
    · rw [List.foldl_cons, hsum, List.length_cons]
      omega
    · rw [List.foldl_cons, hget j, getD_modify hi, List.count_cons]
      by_cases hj : j = i
      · subst hj
        simp only [if_true, beq_self_eq_true]
        omega
      · have : (i == j) = false := beq_false_of_ne (Ne.symm hj)
        simp [hj, this]

instance (total : Nat) (products : List Nat) : Std.Total (SeatBefore total products) :=
  ⟨fun i j => by
    unfold SeatBefore
    omega⟩

instance (total : Nat) (products : List Nat) : IsTrans Nat (SeatBefore total products) :=
  ⟨fun i j k => by
    unfold SeatBefore
    omega⟩

/-- The first `left` in the order of seats are those with fewer than `left` ahead of them. -/
theorem mem_take_seatOrder (s : Nat) {ws : List Nat} {i : Nat} (hi : i < ws.length) (left : Nat) :
    i ∈ (seatOrder ws.sum (ws.map (s * ·))).take left ↔
      (List.range ws.length).countP (Ahead s ws · i) < left := by
  have hperm : (seatOrder ws.sum (ws.map (s * ·))).Perm (List.range ws.length) := by
    rw [seatOrder, List.length_map]
    exact List.perm_insertionSort ..
  have hget : ∀ j, (ws.map (s * ·)).getD j 0 = s * ws.getD j 0 := fun j => by
    rw [List.getD_eq_getElem?_getD, List.getElem?_map, List.getD_eq_getElem?_getD]
    cases ws[j]? <;> rfl
  rw [← hperm.countP_eq]
  refine mem_take_iff (List.pairwise_insertionSort ..) (hperm.nodup_iff.2 List.nodup_range)
    (hperm.mem_iff.2 (List.mem_range.2 hi)) (fun j _ hne => ?_) ?_ (fun j _ => ?_) left
  · rw [decide_eq_true_eq, Ahead, SeatBefore, hget, hget]
    omega
  · rw [decide_eq_false_iff_not, Ahead]
    omega
  · rw [SeatBefore, SeatBefore]
    omega

section Apportion

variable {weights : List Nat} (hlen : weights.length ≤ seats)
include hlen

theorem apportion_spec (hpos : 0 < weights.sum)
    (hfit : ∀ w ∈ weights, (seats - weights.length) * w < 2 ^ 64) :
    ∃ out, (apportion seats weights : Checked ε _) = .ok out ∧ out.length = weights.length ∧
      out.sum = seats ∧
      ∀ i < weights.length, out.getD i 0 = 1 + remainderShare (seats - weights.length) weights i := by
  set spare := seats - weights.length with hspare
  obtain ⟨hle, hge⟩ := sum_floors spare hpos
  let out := (weights.map (spare * ·)).map fun p => 1 + p / weights.sum
  have hlength : out.length = weights.length := by simp [out]
  have hsum : out.sum = weights.length + (weights.map (spare * · / weights.sum)).sum := by
    simp only [out, List.map_map, Function.comp_def]
    rw [List.sum_map_add]
    simp
  have hleft : seats - out.sum = (weights.map (spare * · % weights.sum)).sum / weights.sum := by
    rw [sum_rems_div spare hpos, hsum]
    omega
  have hidx : ∀ i ∈ (seatOrder weights.sum (weights.map (spare * ·))).take (seats - out.sum),
      i < out.length := by
    intro i hi
    have hmem := List.mem_of_mem_take hi
    rwa [seatOrder, List.mem_insertionSort, List.mem_range, List.length_map, ← hlength] at hmem
  obtain ⟨hlength', hbump, hget⟩ := bump_spec hidx
  refine ⟨_, ?_, hlength'.trans hlength, ?_, fun i hi => ?_⟩
  · unfold apportion
    rw [Checked.sub_ok hlen, Checked.bind_ok, ← hspare]
    dsimp only
    rw [Checked.mapM_mul, if_pos hfit, Checked.bind_ok,
      Checked.require_ok _ (.inr (Nat.ne_of_gt hpos)), Checked.bind_ok,
      Checked.sub_ok (show out.sum ≤ seats by omega), Checked.bind_ok]
    rfl
  · rw [hbump, List.length_take, seatOrder, List.length_insertionSort, List.length_range,
      List.length_map]
    omega
  · have hnodup : ((seatOrder weights.sum (weights.map (spare * ·))).take (seats - out.sum)).Nodup :=
      ((List.perm_insertionSort ..).nodup_iff.2 List.nodup_range).sublist (List.take_sublist ..)
    have hfloor : out.getD i 0 = 1 + spare * weights.getD i 0 / weights.sum := by
      simp [out, List.getElem?_eq_getElem hi]
    rw [hget i, hfloor, hnodup.count, remainderShare, Nat.add_assoc]
    simp only [mem_take_seatOrder spare hi, hleft]

theorem apportion_overflows (h : ¬∀ w ∈ weights, (seats - weights.length) * w < 2 ^ 64) :
    (apportion seats weights : Checked ε _) = Checked.abort .arithOverflow := by
  unfold apportion
  rw [Checked.sub_ok hlen, Checked.bind_ok]
  dsimp only
  rw [Checked.mapM_mul, if_neg h]
  rfl

end Apportion

/-! ## Whole nodes -/

/-- The state of the packing after the nodes `done`: `into` says which group a node went to. -/
structure WholePacked (nodes : List CpuSet) (weights : List Nat) (n : Nat) (done : List Nat)
    (st : List CpuSet × List Nat) (into : Nat → Nat) : Prop where
  groups : st.1.length = n
  loads : st.2.length = n
  mem : ∀ g c, memAt st.1 g c = true ↔ ∃ i ∈ done, into i = g ∧ memAt nodes i c = true
  loaded : ∀ g, 0 < st.2.getD g 0 → ∃ i ∈ done, into i = g
  zeros : (∀ i ∈ done, 0 < weights.getD i 0) →
    tally n (· == 0) (fun g => st.2.getD g 0) ≤ n - done.length

theorem WholePacked.start (nodes : List CpuSet) (weights : List Nat) (n : Nat) :
    WholePacked nodes weights n [] (List.replicate n .new, List.replicate n 0) (fun _ => 0) where
  groups := List.length_replicate
  loads := List.length_replicate
  mem g c := by simp [memAt, -List.getD_eq_getElem?_getD, getD_replicate_new]
  loaded g hg := by
    rw [List.getD_eq_getElem?_getD, List.getElem?_replicate] at hg
    split at hg <;> cases hg
  zeros _ := tally_le _ _ n

theorem WholePacked.packWhole {nodes : List CpuSet} {weights : List Nat} {i : Nat} {done : List Nat}
    {st : List CpuSet × List Nat} {into : Nat → Nat} (h : WholePacked nodes weights n done st into)
    (hn : 0 < n) (hi : i ∉ done) :
    ∃ st' g, (packWhole nodes weights n st i : Checked ε _) = .ok st' ∧
      WholePacked nodes weights n (done ++ [i]) st' (Function.update into i g) := by
  obtain ⟨g, hg⟩ : ∃ g, (List.range n).argmin (fun g => st.2.getD g 0) = some g := by
    rw [← Option.ne_none_iff_exists']
    intro hnone
    have := List.argmin_eq_none.1 hnone
    rw [List.range_eq_nil] at this
    omega
  have hlt : g < n := List.mem_range.1 (List.argmin_mem hg)
  have hmin : ∀ g' < n, st.2.getD g 0 ≤ st.2.getD g' 0 := fun g' hg' =>
    List.le_of_mem_argmin (List.mem_range.2 hg') hg
  have hgroups : g < st.1.length := h.groups.symm ▸ hlt
  have hloads : g < st.2.length := h.loads.symm ▸ hlt
  have hold : ∀ j ∈ done, Function.update into i g j = into j := fun j hj =>
    Function.update_of_ne (fun heq : j = i => hi (heq ▸ hj)) _ _
  refine ⟨_, g, by rw [Cpus.packWhole, hg], ?_, ?_, fun g' c => ?_, fun g' hpos => ?_, fun hw => ?_⟩
  · rw [List.length_modify, h.groups]
  · rw [List.length_modify, h.loads]
  · rw [memAt_modify hgroups]
    simp only [List.mem_append, List.mem_singleton, or_and_right, exists_or, exists_eq_left,
      Function.update_self]
    have hdone : (∃ j ∈ done, Function.update into i g j = g' ∧ memAt nodes j c = true) ↔
        memAt st.1 g' c = true := by
      rw [h.mem g' c]
      refine exists_congr fun j => and_congr_right fun hj => ?_
      rw [hold j hj]
    rw [hdone]
    split_ifs with heq
    · rw [CpuSet.test_or, Bool.or_eq_true, heq]
      simp [memAt]
    · simp [Ne.symm heq]
  · dsimp only at hpos
    rw [getD_modify hloads] at hpos
    split_ifs at hpos with heq
    · exact ⟨i, List.mem_append_right _ (List.mem_singleton.2 rfl), by
        rw [Function.update_self, heq]⟩
    · obtain ⟨j, hj, hinto⟩ := h.loaded g' hpos
      exact ⟨j, List.mem_append_left _ hj, by rw [hold j hj, hinto]⟩
  · have hwi : 0 < weights.getD i 0 := hw i (List.mem_append_right _ (List.mem_singleton.2 rfl))
    have hzeros := h.zeros fun j hj => hw j (List.mem_append_left _ hj)
    have hfun : (fun g' => (st.2.modify g (· + weights.getD i 0)).getD g' 0) =
        Function.update (fun g' => st.2.getD g' 0) g (st.2.getD g 0 + weights.getD i 0) := by
      funext g'
      rw [getD_modify hloads, Function.update_apply]
      split_ifs with heq
      · rw [heq]
      · rfl
    have hupd := tally_update (· == 0) (fun g' => st.2.getD g' 0) g
      (st.2.getD g 0 + weights.getD i 0) hlt
    dsimp only at hupd ⊢
    rw [hfun, List.length_append, List.length_singleton]
    have hnew : (st.2.getD g 0 + weights.getD i 0 == 0) = false := by simpa using fun _ => hwi.ne'
    rw [hnew] at hupd
    rcases Nat.eq_zero_or_pos (st.2.getD g 0) with hzero | hposg
    · have : (st.2.getD g 0 == 0) = true := by rw [hzero]; rfl
      rw [this] at hupd
      simp only [if_true, Bool.false_eq_true, if_false] at hupd
      omega
    · -- the lightest group has load already, so every group has
      have hnone : tally n (· == 0) (fun g' => st.2.getD g' 0) = 0 := tally_eq_zero fun g' hg' => by
        have := hmin g' hg'
        simpa using (by omega : st.2.getD g' 0 ≠ 0)
      have : (st.2.getD g 0 == 0) = false := by simpa using hposg.ne'
      rw [this] at hupd
      simp only [Bool.false_eq_true, if_false] at hupd
      omega

theorem packWholeNodes_spec (hn : 0 < n) (nodes : List CpuSet) (weights : List Nat) :
    ∃ (groups : List CpuSet) (into : Nat → Nat),
      (packWholeNodes n nodes weights : Checked ε _) = .ok groups ∧ groups.length = n ∧
      (∀ g c, memAt groups g c = true ↔ ∃ i, into i = g ∧ memAt nodes i c = true) ∧
      ((∀ i < nodes.length, 0 < weights.getD i 0) → n ≤ nodes.length →
        ∀ g < n, ∃ i < nodes.length, into i = g) := by
  let order := (List.range nodes.length).insertionSort fun a b =>
    weights.getD b 0 < weights.getD a 0 ∨ weights.getD a 0 = weights.getD b 0 ∧ a ≤ b
  have hmem : ∀ i, i ∈ order ↔ i < nodes.length := fun i => by
    rw [List.mem_insertionSort, List.mem_range]
  have hnodup : order.Nodup := (List.perm_insertionSort _ _).nodup_iff.2 List.nodup_range
  obtain ⟨st, hst, into, hpacked⟩ := foldlM_done (ε := ε) (packWhole nodes weights n)
    (fun done st => ∃ into, WholePacked nodes weights n done st into) order
    (List.replicate n .new, List.replicate n 0) ⟨_, .start nodes weights n⟩
    (by
      rintro done i rest st hsplit ⟨into, hpacked⟩
      have hi : i ∉ done := by
        rw [hsplit] at hnodup
        exact fun hm => (List.nodup_append.1 hnodup).2.2 i hm i (List.mem_cons_self ..) rfl
      obtain ⟨st', g, hok, hpacked'⟩ := hpacked.packWhole (ε := ε) hn hi
      exact ⟨st', hok, _, hpacked'⟩)
  refine ⟨st.1, into, ?_, hpacked.groups, fun g c => ?_, fun hw hle g hg => ?_⟩
  · show (order.foldlM (packWhole nodes weights n) _ >>= fun st => pure st.1) = _
    rw [hst]
    rfl
  · rw [hpacked.mem g c]
    refine exists_congr fun i => and_iff_right_of_imp fun hi => (hmem i).2 ?_
    obtain ⟨node, hnode, -⟩ := memAt_iff.1 hi.2
    exact (List.getElem?_eq_some_iff.1 hnode).1
  · have hlen : order.length = nodes.length := by rw [List.length_insertionSort, List.length_range]
    have hzeros := hpacked.zeros fun i hi => hw i ((hmem i).1 hi)
    have hload : 0 < st.2.getD g 0 := by
      by_contra hzero
      have := tally_pos (P := (· == 0)) (f := fun g => st.2.getD g 0) hg (by simpa using hzero)
      omega
    obtain ⟨i, hi, hinto⟩ := hpacked.loaded g hload
    exact ⟨i, (hmem i).1 hi, hinto⟩

/-! ## Blocks -/

structure NodeBlock (topo : CpuTopology) (node : CpuSet) (seats : Nat) (block : List CpuSet) :
    Prop where
  length : block.length = seats
  apart : block.Pairwise CpuSet.Apart
  mem : ∀ c, c ∈ fillOrder node topo ↔ ∃ g ∈ block, g.test c = true
  share : ∀ j g, block[j]? = some g →
    (g.and topo.present).weight = evenShare (presentOrder node topo).length seats j

theorem packNode_block (node : CpuSet) (hs : 0 < seats) (topo : CpuTopology) :
    ∃ block, (packNode node seats topo : Checked ε _) = .ok block ∧
      NodeBlock topo node seats block := by
  obtain ⟨block, hpack, hlen, hapart, hmem, hshare⟩ := packNode_spec (ε := ε) node hs topo
  refine ⟨block, hpack, hlen, pairwise_apart_iff.2 hapart, fun c => ?_, fun j g hg => ?_⟩
  · rw [hmem, exists_memAt]
  · have hj : j < seats := hlen ▸ (List.getElem?_eq_some_iff.1 hg).1
    rw [← hshare j hj, List.getD_eq_getElem?_getD, hg]
    rfl

section Blocks

variable (h : topo.nodes ≠ []) (hle : topo.nodes.length ≤ n)
include h hle

/-- With at least as many groups as nodes, the groups are the blocks of the nodes. -/
theorem spreadCpus_blocks (hfit : ∀ w ∈ topo.weights, (n - topo.nodes.length) * w < 2 ^ 64) :
    ∃ seats blocks, seats.length = topo.nodes.length ∧ seats.sum = n ∧ (∀ s ∈ seats, 1 ≤ s) ∧
      (∀ i < topo.nodes.length, seats.getD i 0 =
        1 + remainderShare (n - topo.nodes.length) topo.weights i) ∧
      (spreadCpus n topo : Checked ε _) = .ok blocks.flatten ∧
      List.Forall₂ (fun p block => NodeBlock topo p.1 p.2 block) (topo.nodes.zip seats) blocks := by
  rw [← topo.weights_length] at hle hfit ⊢
  obtain ⟨seats, hseats, hlen, hsum, hget⟩ :=
    apportion_spec (ε := ε) hle (CpuTopology.weights_sum_pos h) hfit
  have hpos : ∀ s ∈ seats, 1 ≤ s := by
    intro s hs
    obtain ⟨i, hi⟩ := List.mem_iff_getElem?.1 hs
    have hi' := hget i (hlen ▸ (List.getElem?_eq_some_iff.1 hi).1)
    rw [List.getD_eq_getElem?_getD, hi, Option.getD_some] at hi'
    omega
  obtain ⟨blocks, hblocks, hall⟩ := mapM_forall₂ (ε := ε) (f := fun p => packNode p.1 p.2 topo)
    (R := fun p block => NodeBlock topo p.1 p.2 block) (l := topo.nodes.zip seats) fun p hp =>
      packNode_block p.1 (hpos p.2 (List.of_mem_zip hp).2) topo
  refine ⟨seats, blocks, hlen, hsum, hpos, hget, ?_, hall⟩
  rw [topo.weights_length] at hle
  have hnil : n ≠ 0 := by
    have := List.length_pos_iff.2 h
    omega
  rw [spreadCpus, if_neg hnil, if_neg h, if_neg (Nat.not_lt.2 hle), hseats, Checked.bind_ok, hblocks]
  rfl

theorem spreadCpus_overflows
    (hfit : ¬∀ w ∈ topo.weights, (n - topo.nodes.length) * w < 2 ^ 64) :
    (spreadCpus n topo : Checked ε _) = Checked.abort .arithOverflow := by
  have hnil : n ≠ 0 := by
    have := List.length_pos_iff.2 h
    omega
  rw [spreadCpus, if_neg hnil, if_neg h, if_neg (Nat.not_lt.2 hle), apportion_overflows]
  · rfl
  · rwa [topo.weights_length]
  · rwa [topo.weights_length]

end Blocks

theorem blocks_apart {zs : List (CpuSet × Nat)}
    (h : List.Forall₂ (fun p block => NodeBlock topo p.1 p.2 block) zs blocks)
    (hz : (zs.map Prod.fst).Pairwise CpuSet.Apart) : blocks.flatten.Pairwise CpuSet.Apart := by
  rw [List.pairwise_flatten]
  constructor
  · intro block hb
    obtain ⟨p, -, hblock⟩ := forall₂_mem_right h hb
    exact hblock.apart
  · induction h with
    | nil => exact .nil
    | @cons p block zs blocks hblock hrest ih =>
      obtain ⟨hp, hz⟩ := List.pairwise_cons.1 hz
      refine List.pairwise_cons.2 ⟨fun block' hb' g hg g' hg' c hc hc' => ?_, ih hz⟩
      obtain ⟨q, hq, hblock'⟩ := forall₂_mem_right hrest hb'
      have hin := (fillOrder_spec p.1 topo).2.1 c ((hblock.mem c).2 ⟨g, hg, hc⟩)
      have hin' := (fillOrder_spec q.1 topo).2.1 c ((hblock'.mem c).2 ⟨g', hg', hc'⟩)
      exact hp q.1 (List.mem_map_of_mem hq) c hin hin'

/-- With fewer groups than nodes, every group is a union of nodes. -/
theorem spreadCpus_whole (hnodes : topo.NodesOk) (hn : 0 < n) (hlt : n < topo.nodes.length) :
    ∃ groups, (spreadCpus n topo : Checked ε _) = .ok groups ∧ groups.length = n ∧
      groups.Pairwise CpuSet.Apart ∧
      (∀ c, topo.possible.test c = true ↔ ∃ g ∈ groups, g.test c = true) ∧
      (∀ g ∈ groups, ∃ whole, whole ⊆ topo.nodes ∧
        ∀ c, g.test c = true ↔ ∃ node ∈ whole, node.test c = true) ∧
      ((∀ i < topo.nodes.length, 0 < topo.weights.getD i 0) → ∀ g ∈ groups, g.isEmpty = false) := by
  have hne : topo.nodes ≠ [] := List.ne_nil_of_length_pos (by omega)
  obtain ⟨groups, into, hpack, hlen, hmem, hall⟩ :=
    packWholeNodes_spec (ε := ε) hn topo.nodes topo.weights
  have hat : ∀ {k g}, groups[k]? = some g → ∀ c, (g.test c = true ↔ memAt groups k c = true) :=
    fun hk c => by simp [memAt_iff, hk]
  refine ⟨groups, ?_, hlen, ?_, fun c => ?_, fun g hg => ?_, fun hw g hg => ?_⟩
  · rw [spreadCpus, if_neg (by omega), if_neg hne, if_pos hlt, hpack]
  · rw [pairwise_apart_iff]
    intro g g' c hg hg'
    obtain ⟨i, rfl, hci⟩ := (hmem g c).1 hg
    obtain ⟨j, rfl, hcj⟩ := (hmem g' c).1 hg'
    rw [pairwise_apart_iff.1 hnodes.nodes_apart i j c hci hcj]
  · rw [hnodes.possible_iff c, ← exists_memAt, ← exists_memAt]
    simp [hmem]
  · obtain ⟨k, hk⟩ := List.mem_iff_getElem?.1 hg
    refine ⟨(topo.nodes.zipIdx.filter (into ·.2 = k)).map Prod.fst, fun node hnode => ?_, fun c => ?_⟩
    · obtain ⟨p, hp, rfl⟩ := List.mem_map.1 hnode
      exact List.mem_of_getElem? (List.mem_zipIdx_iff_getElem?.1 (List.mem_filter.1 hp).1)
    · rw [hat hk c, hmem k c]
      simp only [memAt_iff, List.mem_map, List.mem_filter, List.mem_zipIdx_iff_getElem?,
        decide_eq_true_eq]
      constructor
      · rintro ⟨i, hinto, node, hi, hc⟩
        exact ⟨node, ⟨(node, i), ⟨hi, hinto⟩, rfl⟩, hc⟩
      · rintro ⟨_, ⟨⟨node, i⟩, ⟨hi, hinto⟩, rfl⟩, hc⟩
        exact ⟨i, hinto, node, hi, hc⟩
  · obtain ⟨k, hk⟩ := List.mem_iff_getElem?.1 hg
    obtain ⟨i, hi, hinto⟩ := hall hw (Nat.le_of_lt hlt) k (hlen ▸ (List.getElem?_eq_some_iff.1 hk).1)
    obtain ⟨c, hc⟩ := CpuSet.exists_of_not_isEmpty (CpuTopology.mem_nodes (List.getElem_mem hi)).1
    refine CpuSet.not_isEmpty ((hat hk c).2 ((hmem k c).2 ⟨i, hinto, ?_⟩))
    exact memAt_iff.2 ⟨_, List.getElem?_eq_getElem hi, hc⟩

/-! ## The partition -/

/-- The groups of a node: inside it, covering it, with present CPUs spread evenly. -/
def SplitsNode (topo : CpuTopology) (node : CpuSet) (block : List CpuSet) : Prop :=
  block ≠ [] ∧ (∀ g ∈ block, ∀ c, g.test c = true → node.test c = true) ∧
  (∀ c, node.test c = true → ∃ g ∈ block, g.test c = true) ∧
  ∀ g ∈ block, ∀ g' ∈ block, (g.and topo.present).weight ≤ (g'.and topo.present).weight + 1

theorem NodeBlock.splits (hmasks : topo.MasksOk) (h : NodeBlock topo node seats block)
    (hs : 1 ≤ seats) : SplitsNode topo node block := by
  refine ⟨List.ne_nil_of_length_pos (h.length.symm ▸ hs), fun g hg c hc => ?_, fun c hc => ?_,
    fun g hg g' hg' => ?_⟩
  · exact (fillOrder_spec node topo).2.1 c ((h.mem c).2 ⟨g, hg, hc⟩)
  · exact (h.mem c).1 ((mem_fillOrder hmasks).2 hc)
  · obtain ⟨i, hi⟩ := List.mem_iff_getElem?.1 hg
    obtain ⟨j, hj⟩ := List.mem_iff_getElem?.1 hg'
    rw [h.share i g hi, h.share j g' hj]
    exact even_le_succ ..

theorem blocks_length {zs : List (CpuSet × Nat)}
    (h : List.Forall₂ (fun p block => NodeBlock topo p.1 p.2 block) zs blocks) :
    blocks.flatten.length = (zs.map Prod.snd).sum := by
  induction h with
  | nil => rfl
  | cons hblock _ ih =>
    rw [List.flatten_cons, List.length_append, ih, hblock.length, List.map_cons, List.sum_cons]

/-- `groups` partition the possible CPUs: node by node when there are groups enough, and by whole
nodes otherwise. -/
structure Partitions (topo : CpuTopology) (n : Nat) (groups : List CpuSet) : Prop where
  length : groups.length = n
  apart : groups.Pairwise CpuSet.Apart
  cover : ∀ c, topo.possible.test c = true ↔ ∃ g ∈ groups, g.test c = true
  splits : topo.nodes ≠ [] → topo.nodes.length ≤ n → ∃ blocks, groups = blocks.flatten ∧
    List.Forall₂ (SplitsNode topo) topo.nodes blocks
  whole : n < topo.nodes.length → ∀ g ∈ groups, ∃ whole, whole ⊆ topo.nodes ∧
    ∀ c, g.test c = true ↔ ∃ node ∈ whole, node.test c = true

theorem spreadCpus_empty (hnodes : topo.NodesOk) (hn : n ≠ 0) (hnil : topo.nodes = []) :
    (spreadCpus n topo : Checked ε _) = .ok (List.replicate n .new) ∧
      Partitions topo n (List.replicate n .new) := by
  refine ⟨by rw [spreadCpus, if_neg hn, if_pos hnil], List.length_replicate, ?_, fun c => ?_,
    fun h => absurd hnil h, fun h => ?_⟩
  · rw [List.pairwise_replicate]
    exact .inr fun c hc => nomatch hc
  · rw [hnodes.possible_iff c, hnil]
    simp
  · rw [hnil] at h
    cases h

theorem CpuTopology.NodesOk.of_lists (nodes : List (List Nat)) {cpus : List Nat}
    (hnodes : topo.nodeToCpus = nodes.map .ofList) (hcpus : topo.possible = .ofList cpus)
    (hapart : nodes.Pairwise fun a b => ∀ c ∈ a, c ∉ b)
    (hcover : ∀ c ∈ cpus, ∃ node ∈ nodes, c ∈ node) : topo.NodesOk where
  apart := by
    rw [hnodes, List.pairwise_map]
    refine hapart.imp fun hab c ha hb => ?_
    rw [CpuSet.test_ofList, decide_eq_true_eq] at ha hb
    exact hab c ha hb
  cover c hc := by
    rw [hcpus, CpuSet.test_ofList, decide_eq_true_eq] at hc
    obtain ⟨node, hnode, hc⟩ := hcover c hc
    exact ⟨.ofList node, hnodes ▸ List.mem_map_of_mem hnode, by simpa [CpuSet.test_ofList] using hc⟩

theorem test_self_of_masks {masks : List CpuSet} (h : ∀ p ∈ masks.zipIdx, p.1.test p.2 = true)
    (cpu c : Nat) (hc : (masks.getD cpu .new).test c = true) :
    (masks.getD cpu .new).test cpu = true := by
  rw [List.getD_eq_getElem?_getD] at hc ⊢
  cases hm : masks[cpu]? with
  | none =>
    rw [hm] at hc
    cases hc
  | some mask => exact h (mask, cpu) (List.mem_zipIdx_iff_getElem?.2 hm)

/-- A cluster of two cores and a third core of its own, in two nodes; CPUs 3 and 5 are absent. -/
def halfPopulated : CpuTopology where
  possible := .ofList [0, 1, 2, 3, 4, 5]
  present := .ofList [0, 1, 2, 4]
  online := .ofList [0, 1, 2, 4]
  nodeToCpus := [.ofList [0, 1, 2, 3], .ofList [4, 5]]
  sibling := [[0, 1], [0, 1], [2, 3], [2, 3], [4, 5], [4, 5]].map .ofList
  cluster := [[0, 1, 2, 3], [0, 1, 2, 3], [0, 1, 2, 3], [0, 1, 2, 3], [4, 5], [4, 5]].map .ofList

def eightCpus : CpuTopology where
  possible := .ofList [0, 1, 2, 3, 4, 5, 6, 7]
  present := .ofList [0, 1, 2, 3, 4, 5, 6, 7]
  online := .ofList [0, 1, 2, 3, 4, 5, 6, 7]
  nodeToCpus := [.ofList [0, 1, 2, 3, 4, 5, 6, 7]]
  sibling := []
  cluster := []

def EmptyLast (groups : List CpuSet) : Prop :=
  groups.Pairwise fun a b => a.isEmpty = true → b.isEmpty = true

/-- No group is empty unless there are more groups than CPUs, and then the empty ones come last. -/
def NoneStarved (topo : CpuTopology) (n : Nat) (groups : List CpuSet) : Prop :=
  (n ≤ topo.possible.weight → ∀ g ∈ groups, g.isEmpty = false) ∧
  (topo.possible.weight < n → EmptyLast groups)

/-- No node's share of the groups is larger than the node, by the group count and the node sizes
alone; with more groups than CPUs the last node's may be. -/
def CpuTopology.SeatsFit (topo : CpuTopology) (n : Nat) : Prop :=
  let sizes := topo.nodes.map CpuSet.weight
  (∀ w ∈ sizes, (n - sizes.length) * w < 2 ^ 64) ∧
    (sizes.length ≤ n →
      ∀ i < if n ≤ topo.possible.weight then sizes.length else sizes.length - 1,
        1 + remainderShare (n - sizes.length) sizes i ≤ sizes.getD i 0)

theorem CpuTopology.SeatsFit.of_lt (hlt : n < topo.nodes.length) : topo.SeatsFit n := by
  refine ⟨fun w _ => ?_, fun hle => absurd hlt (Nat.not_lt.2 (by simpa using hle))⟩
  rw [List.length_map, Nat.sub_eq_zero_of_le (Nat.le_of_lt hlt), Nat.zero_mul]
  decide

theorem CpuTopology.SeatsFit.of_nil (hnil : topo.nodes = []) : topo.SeatsFit n := by
  simp [SeatsFit, hnil]

section Full

variable (hpresent : ∀ c, topo.possible.test c = true → topo.present.test c = true)
include hpresent

theorem NodeBlock.isEmpty_iff {j : Nat} {g : CpuSet} (h : NodeBlock topo node seats block)
    (hnode : ∀ c, node.test c = true → topo.possible.test c = true) (hg : block[j]? = some g) :
    g.isEmpty = true ↔ (fillOrder node topo).length ≤ j := by
  have hinside := (fillOrder_spec node topo).2.1
  have hall : presentOrder node topo = fillOrder node topo :=
    List.filter_eq_self.2 fun c hc => hpresent c (hnode c (hinside c hc))
  have hsame : ∀ c, (g.and topo.present).test c = g.test c := fun c => by
    rw [CpuSet.test_and, Bool.and_eq_left_iff_imp]
    exact fun hc => hpresent c (hnode c (hinside c
      ((h.mem c).2 ⟨g, List.mem_of_getElem? hg, hc⟩)))
  have hj : j < seats := h.length ▸ (List.getElem?_eq_some_iff.1 hg).1
  rw [← CpuSet.weight_eq_zero_iff, ← CpuSet.weight_congr hsame, h.share j g hg, hall,
    even_eq_zero_iff hj]

/-- The empty groups of a node come last, there are some when it has more seats than CPUs, and the
first group is none of them. -/
theorem NodeBlock.empty_groups (h : NodeBlock topo node seats block) (hmem : node ∈ topo.nodes)
    (hs : 1 ≤ seats) :
    EmptyLast block ∧
      ((∀ g ∈ block, g.isEmpty = false) ↔ seats ≤ (fillOrder node topo).length) ∧
      ∃ g ∈ block, g.isEmpty = false := by
  obtain ⟨hne, hnode⟩ := CpuTopology.mem_nodes hmem
  have hempty : ∀ {j g}, block[j]? = some g →
      (g.isEmpty = true ↔ (fillOrder node topo).length ≤ j) :=
    fun hg => h.isEmpty_iff hpresent hnode hg
  have hpos : 0 < (fillOrder node topo).length :=
    List.length_pos_iff.2 ((fillOrder_spec node topo).2.2.1 hne)
  refine ⟨?_, ?_, ?_⟩
  · rw [EmptyLast, List.pairwise_iff_getElem]
    intro i j hi hj hlt hie
    have := (hempty (List.getElem?_eq_getElem hi)).1 hie
    exact (hempty (List.getElem?_eq_getElem hj)).2 (by omega)
  · constructor
    · intro hall
      by_contra hlt
      have hj : (fillOrder node topo).length < block.length := by
        rw [h.length]
        omega
      have := (hempty (List.getElem?_eq_getElem hj)).2 (Nat.le_refl _)
      rw [hall _ (List.getElem_mem hj)] at this
      cases this
    · intro hle g hg
      obtain ⟨j, hj⟩ := List.mem_iff_getElem?.1 hg
      have hlt := (List.getElem?_eq_some_iff.1 hj).1
      rw [h.length] at hlt
      exact Bool.eq_false_iff.2 fun he => absurd ((hempty hj).1 he) (by omega)
  · have h0 : 0 < block.length := h.length.symm ▸ hs
    exact ⟨_, List.getElem_mem h0, Bool.eq_false_iff.2 fun he =>
      absurd ((hempty (List.getElem?_eq_getElem h0)).1 he) (Nat.not_le.2 hpos)⟩

end Full

/-- Blocks that are never all empty have their empty groups last when only the last block has
any. -/
theorem trailing_iff {ζ : Type} {zs : List ζ} {Fits : ζ → Prop}
    (h : List.Forall₂ (fun z block => EmptyLast block ∧
      ((∀ g ∈ block, g.isEmpty = false) ↔ Fits z) ∧ ∃ g ∈ block, g.isEmpty = false) zs blocks) :
    EmptyLast blocks.flatten ↔ ∀ z ∈ zs.dropLast, Fits z := by
  induction h with
  | nil => exact iff_of_true .nil fun _ hz => nomatch hz
  | @cons z block zs blocks hblock hrest ih =>
    obtain ⟨hlast, hfits, -⟩ := hblock
    unfold EmptyLast at ih hlast ⊢
    rw [List.flatten_cons, List.pairwise_append, ih]
    cases hrest with
    | nil =>
      refine iff_of_true ⟨hlast, ?_, ?_⟩ ?_
      · exact fun _ hz => nomatch hz
      · exact fun _ _ _ hg => nomatch hg
      · exact fun _ hz => nomatch hz
    | @cons z' block' zs' blocks' hblock' hrest' =>
      obtain ⟨g', hg', hne'⟩ := hblock'.2.2
      rw [List.dropLast_cons_cons, List.forall_mem_cons, and_comm (a := Fits z), ← hfits]
      constructor
      · rintro ⟨-, hdrop, hcross⟩
        refine ⟨hdrop, fun g hg => Bool.eq_false_iff.2 fun he => ?_⟩
        -- an empty group of this block comes before the first group of the next
        rw [hcross g hg g' (List.mem_append_left _ hg') he] at hne'
        cases hne'
      · rintro ⟨hdrop, hnone⟩
        refine ⟨hlast, hdrop, fun g hg _ _ he => ?_⟩
        rw [hnone g hg] at he
        cases he

theorem ioThreadCpus_spec (hspread : (spreadCpus n topo : Checked ε _) = .ok groups) :
    ∃ cpus, (ioThreadCpus n topo : Checked ε _) = .ok cpus ∧
      ∀ i g, i < n → groups[i]? = some g → (∀ c, g.test c = true → topo.online.test c = true) →
        (g.isEmpty = false ↔ ∃ c, cpus[i]? = some (some c) ∧ g.test c = true) := by
  refine ⟨_, by rw [ioThreadCpus, hspread, Checked.bind_ok]; rfl, fun i g hi hg honline => ?_⟩
  have hcpu : ((List.range n).map fun i =>
      (groups[i]?.map (·.and topo.online)).bind CpuSet.first)[i]? =
        some (g.and topo.online).first := by
    rw [List.getElem?_map, List.getElem?_range hi, Option.map_some, hg]
    rfl
  rw [hcpu]
  constructor
  · intro hne
    obtain ⟨c, hc⟩ := CpuSet.exists_of_not_isEmpty hne
    have hmem : c ∈ (g.and topo.online).iter := by
      rw [CpuSet.mem_iter, CpuSet.test_and, hc, honline c hc]
      rfl
    obtain ⟨d, hd⟩ : ∃ d, (g.and topo.online).iter.head? = some d :=
      Option.ne_none_iff_exists'.1 fun hnone => by
        rw [List.head?_eq_none_iff.1 hnone] at hmem
        cases hmem
    have hin := CpuSet.mem_iter.1 (List.mem_of_mem_head? hd)
    rw [CpuSet.test_and, Bool.and_eq_true] at hin
    exact ⟨d, congrArg some hd, hin.1⟩
  · rintro ⟨c, -, hc⟩
    exact CpuSet.not_isEmpty hc

/-- The groups come back with none starved, and a thread is pinned to a CPU of its group exactly
when the group is not empty, where its CPUs are online. -/
def Pins (topo : CpuTopology) (n : Nat) : Prop :=
  ∃ groups, (spreadCpus n topo : Checked Empty _) = .ok groups ∧ NoneStarved topo n groups ∧
    ∃ cpus, (ioThreadCpus n topo : Checked Empty _) = .ok cpus ∧
      ∀ i g, i < n → groups[i]? = some g → (∀ c, g.test c = true → topo.online.test c = true) →
        (g.isEmpty = false ↔ ∃ c, cpus[i]? = some (some c) ∧ g.test c = true)

theorem pins_iff (hspread : (spreadCpus n topo : Checked Empty _) = .ok groups) :
    Pins topo n ↔ NoneStarved topo n groups := by
  constructor
  · rintro ⟨groups', hspread', hnone, -⟩
    cases hspread.symm.trans hspread'
    exact hnone
  · exact fun hnone => ⟨groups, hspread, hnone, ioThreadCpus_spec hspread⟩

theorem forall_mem_take_zip {α β : Type} {xs : List α} {ys : List β} {P : α × β → Prop} (k : Nat) :
    (∀ p ∈ (xs.zip ys).take k, P p) ↔
      ∀ i < k, ∀ x y, xs[i]? = some x → ys[i]? = some y → P (x, y) := by
  simp only [List.mem_iff_getElem?, List.getElem?_take, Option.ite_none_right_eq_some,
    List.getElem?_zip_eq_some]
  constructor
  · exact fun h i hi x y hx hy => h (x, y) ⟨i, hi, hx, hy⟩
  · rintro h ⟨x, y⟩ ⟨i, hi, hx, hy⟩
    exact h i hi x y hx hy

/-- With at least as many groups as nodes, none is starved when no node has more seats than CPUs in
its locality order. -/
theorem pins_iff_order (hpresent : ∀ c, topo.possible.test c = true → topo.present.test c = true)
    (hnil : topo.nodes ≠ []) (hge : topo.nodes.length ≤ n)
    (hfit : ∀ w ∈ topo.nodes.map CpuSet.weight, (n - topo.nodes.length) * w < 2 ^ 64) :
    Pins topo n ↔
      ∀ i < if n ≤ topo.possible.weight then topo.nodes.length else topo.nodes.length - 1,
        1 + remainderShare (n - topo.nodes.length) (topo.nodes.map CpuSet.weight) i ≤
          (fillOrder (topo.nodes.getD i .new) topo).length := by
  rw [← CpuTopology.weights_of_present hpresent] at hfit ⊢
  obtain ⟨seats, blocks, hlen, -, hpos, hget, hspread, hblocks⟩ :=
    spreadCpus_blocks (ε := Empty) hnil hge hfit
  have hfacts : List.Forall₂ (fun (p : CpuSet × Nat) block => EmptyLast block ∧
      ((∀ g ∈ block, g.isEmpty = false) ↔ p.2 ≤ (fillOrder p.1 topo).length) ∧
      ∃ g ∈ block, g.isEmpty = false) (topo.nodes.zip seats) blocks := by
    refine List.Forall₂.imp ?_ ((List.forall₂_and_left _ _).2 ⟨fun p hp => List.of_mem_zip hp,
      hblocks⟩)
    exact fun p block h => h.2.empty_groups hpresent h.1.1 (hpos p.2 h.1.2)
  have hzip : (topo.nodes.zip seats).length = topo.nodes.length := by
    rw [List.length_zip, hlen, Nat.min_self]
  have hindex : ∀ k ≤ topo.nodes.length,
      ((∀ p ∈ (topo.nodes.zip seats).take k, p.2 ≤ (fillOrder p.1 topo).length) ↔
        ∀ i < k, 1 + remainderShare (n - topo.nodes.length) topo.weights i ≤
          (fillOrder (topo.nodes.getD i .new) topo).length) := by
    intro k hk
    rw [forall_mem_take_zip]
    refine forall₂_congr fun i hi => ?_
    have hin : i < topo.nodes.length := Nat.lt_of_lt_of_le hi hk
    have hseat : seats[i]? = some (seats.getD i 0) := by
      simp [List.getElem?_eq_getElem (hlen.symm ▸ hin : i < seats.length)]
    have hnode : topo.nodes[i]? = some (topo.nodes.getD i .new) := by
      simp [List.getElem?_eq_getElem hin]
    rw [← hget i hin, hseat, hnode]
    simp
  rw [pins_iff hspread, ← hindex _ (by split <;> omega)]
  rcases Nat.lt_or_ge topo.possible.weight n with hmore | hle
  · rw [if_neg (Nat.not_le.2 hmore), ← hzip, ← List.dropLast_eq_take, ← trailing_iff hfacts]
    exact ⟨fun h => h.2 hmore, fun h => ⟨fun hle => absurd hmore (Nat.not_lt.2 hle), fun _ => h⟩⟩
  · rw [if_pos hle, ← hzip, List.take_length]
    constructor
    · intro h p hp
      obtain ⟨block, hb, -, hfits, -⟩ := forall₂_mem_left hfacts hp
      exact hfits.1 fun g hg => h.1 hle g (List.mem_flatten.2 ⟨block, hb, hg⟩)
    · refine fun h => ⟨fun _ g hg => ?_, fun hmore => absurd hle (Nat.not_le.2 hmore)⟩
      obtain ⟨block, hb, hg⟩ := List.mem_flatten.1 hg
      obtain ⟨p, hp, -, hfits, -⟩ := forall₂_mem_right hfacts hb
      exact hfits.2 (h p hp) g hg

def lopsided : CpuTopology where
  possible := .ofList [0, 1, 2, 3]
  present := .ofList [0, 1, 2, 3]
  online := .ofList [0, 1, 2, 3]
  nodeToCpus := [.ofList [0], .ofList [1, 2, 3]]
  sibling := []
  cluster := []

theorem lopsided_nodesOk : lopsided.NodesOk :=
  .of_lists [[0], [1, 2, 3]] rfl rfl (by decide) (by decide)

end Ioutgt.Cpus
