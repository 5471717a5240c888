import Ioutgt.Lib.Shares
import Ioutgt.Cpus.Proof.FillOrder

/-!
# The groups of one node

Present CPUs are placed against present quotas, the rest against total quotas. The counts of the
groups stay within the quotas and add up to the CPUs placed, so there is room for the next CPU as
long as one is left, and at the end of the first pass every present quota is met exactly.

* `Packing.Ok.place`: placing one CPU;
* `presentPass`, `absentPass`: the two loops;
* `packNode_spec`: the groups partition the order, with an even share of the present CPUs each.
-/

namespace Ioutgt.Cpus

open Lib

variable {ε : Type} {topo : CpuTopology} {seats : Nat} {placed : List Nat} {p : Packing}

def memAt (groups : List CpuSet) (j c : Nat) : Bool := (groups.getD j .new).test c

theorem memAt_modify {groups : List CpuSet} {j : Nat} (hj : j < groups.length)
    (f : CpuSet → CpuSet) (i c : Nat) :
    memAt (groups.modify j f) i c =
      if i = j then (f (groups.getD i .new)).test c else memAt groups i c := by
  unfold memAt
  rw [getD_modify hj]
  split <;> rfl

theorem getD_replicate_new (n j : Nat) : (List.replicate n CpuSet.new).getD j .new = .new := by
  rw [List.getD_eq_getElem?_getD, List.getElem?_replicate]
  split <;> rfl

/-! ## Quotas -/

theorem splitEven_getD {n j : Nat} (hj : j < seats) :
    (splitEven n seats).getD j 0 = evenShare n seats j := by
  rw [splitEven, List.getD_eq_getElem?_getD, List.getElem?_map, List.getElem?_range hj]
  rfl

theorem splitEven_getD_ge {n j : Nat} (hj : seats ≤ j) : (splitEven n seats).getD j 0 = 0 := by
  rw [splitEven, List.getD_eq_getElem?_getD, List.getElem?_eq_none (by simpa using hj)]
  rfl

theorem filled_splitEven (n : Nat) (h : 0 < seats) : filled seats (splitEven n seats) = n := by
  unfold filled
  rw [Finset.sum_congr rfl fun j hj => splitEven_getD (Finset.mem_range.1 hj)]
  exact sum_even n h

theorem splitEven_within {m n : Nat} (h : m ≤ n) (seats : Nat) :
    Within (splitEven m seats) (splitEven n seats) := by
  intro j
  rcases Nat.lt_or_ge j seats with hj | hj
  · rw [splitEven_getD hj, splitEven_getD hj]
    exact even_mono h seats j
  · rw [splitEven_getD_ge hj]
    exact Nat.zero_le _

/-! ## Placing a CPU -/

namespace Packing

/-- The groups hold the CPUs placed so far, each in one of them, and `fill` counts them. -/
structure Ok (seats : Nat) (placed : List Nat) (p : Packing) : Prop where
  groups : p.groups.length = seats
  fill : p.fill.length = seats
  apart : ∀ i j c, memAt p.groups i c = true → memAt p.groups j c = true → i = j
  mem : ∀ c, c ∈ placed ↔ ∃ j, memAt p.groups j c = true
  count : ∀ j, p.fill.getD j 0 = (p.groups.getD j .new).weight
  total : filled seats p.fill = placed.length

theorem Ok.start (seats : Nat) :
    Ok seats [] ⟨List.replicate seats .new, List.replicate seats 0⟩ where
  groups := List.length_replicate
  fill := List.length_replicate
  apart i j c hi := by
    rw [memAt, getD_replicate_new] at hi
    cases hi
  mem c := by
    simp only [memAt, getD_replicate_new]
    simp
  count j := by
    rw [getD_replicate_new, List.getD_eq_getElem?_getD, List.getElem?_replicate]
    split <;> rfl
  total := by
    refine Finset.sum_eq_zero fun j _ => ?_
    rw [List.getD_eq_getElem?_getD, List.getElem?_replicate]
    split <;> rfl

theorem memAt_place (hj : j < p.groups.length) (cpu i c : Nat) :
    memAt (p.place j cpu).groups i c = (memAt p.groups i c || decide (i = j ∧ c = cpu)) := by
  rw [Packing.place, memAt_modify hj]
  by_cases hij : i = j <;> simp [hij, memAt]

theorem Ok.place (h : p.Ok seats placed) {j cpu : Nat} (hj : j < seats) (hcpu : cpu ∉ placed) :
    (p.place j cpu).Ok seats (placed ++ [cpu]) := by
  have hg : j < p.groups.length := h.groups.symm ▸ hj
  have hf : j < p.fill.length := h.fill.symm ▸ hj
  have hnew : ∀ i, memAt p.groups i cpu = false := fun i =>
    Bool.eq_false_iff.2 fun hm => hcpu ((h.mem cpu).2 ⟨i, hm⟩)
  refine ⟨?_, ?_, ?_, ?_, ?_, ?_⟩
  · rw [Packing.place, List.length_modify, h.groups]
  · rw [Packing.place, List.length_modify, h.fill]
  · intro a b c ha hb
    rw [memAt_place hg, Bool.or_eq_true, decide_eq_true_eq] at ha hb
    rcases ha with ha | ⟨rfl, rfl⟩ <;> rcases hb with hb | ⟨rfl, hc⟩
    · exact h.apart a b c ha hb
    · rw [hc, hnew] at ha
      cases ha
    · rw [hnew] at hb
      cases hb
    · rfl
  · intro c
    simp only [memAt_place hg, Bool.or_eq_true, decide_eq_true_eq, List.mem_append,
      List.mem_singleton, h.mem c]
    constructor
    · rintro (⟨i, hi⟩ | rfl)
      · exact ⟨i, .inl hi⟩
      · exact ⟨j, .inr ⟨rfl, rfl⟩⟩
    · rintro ⟨i, hi | ⟨-, rfl⟩⟩
      · exact .inl ⟨i, hi⟩
      · exact .inr rfl
  · intro i
    rw [Packing.place]
    dsimp only
    rw [getD_modify hf, getD_modify hg]
    split_ifs
    · rw [CpuSet.weight_set (hnew i), h.count i]
    · exact h.count i
  · rw [Packing.place, filled_modify hj hf, h.total, List.length_append, List.length_singleton]

end Packing

/-! ## The two passes -/

theorem nextOpen_spec {fill quota : List Nat} {g : Nat} (hf : fill.length = seats)
    (hw : Within fill quota) (hg : ∀ j < g, fill.getD j 0 = quota.getD j 0)
    (hroom : ∃ j < seats, fill.getD j 0 < quota.getD j 0) :
    ∃ j < seats, nextOpen fill quota g = some j ∧ fill.getD j 0 < quota.getD j 0 ∧
      ∀ i < j, fill.getD i 0 = quota.getD i 0 := by
  obtain ⟨j₀, hj₀, hlt⟩ := hroom
  have hge : g ≤ j₀ := by
    by_contra hlt'
    rw [hg j₀ (Nat.not_le.1 hlt')] at hlt
    exact Nat.lt_irrefl _ hlt
  have hsome : (nextOpen fill quota g).isSome = true := by
    unfold nextOpen
    rw [List.find?_isSome]
    refine ⟨j₀, List.mem_range'_1.2 ⟨hge, by omega⟩, ?_⟩
    simpa using Nat.ne_of_lt hlt
  obtain ⟨j, hj⟩ := Option.isSome_iff_exists.1 hsome
  have hfind := hj
  unfold nextOpen at hfind
  rw [List.find?_range'_eq_some] at hfind
  obtain ⟨hne, hmem, hskip⟩ := hfind
  obtain ⟨-, hlt⟩ := List.mem_range'_1.1 hmem
  refine ⟨j, by omega, hj, Nat.lt_of_le_of_ne (hw j) (by simpa using hne), fun i hi => ?_⟩
  rcases Nat.lt_or_ge i g with hig | hig
  · exact hg i hig
  · simpa using hskip i hig hi

theorem presentPass (hs : 0 < seats) {l : List Nat} (hl : l.Nodup) :
    ∃ st : Packing × Nat, (l.foldlM (placePresent (splitEven l.length seats))
        (⟨List.replicate seats .new, List.replicate seats 0⟩, 0) : Checked ε _) = .ok st ∧
      st.1.Ok seats l ∧
      ∀ j < seats, st.1.fill.getD j 0 = (splitEven l.length seats).getD j 0 := by
  obtain ⟨st, hst, hok, hw, -⟩ := foldlM_done (ε := ε) (placePresent (splitEven l.length seats))
    (fun done (st : Packing × Nat) => st.1.Ok seats done ∧
      Within st.1.fill (splitEven l.length seats) ∧
      ∀ j < st.2, st.1.fill.getD j 0 = (splitEven l.length seats).getD j 0)
    l (⟨List.replicate seats .new, List.replicate seats 0⟩, 0)
    ⟨.start seats, fun j => by
      rw [(Packing.Ok.start seats).count j, getD_replicate_new]
      exact Nat.zero_le _, fun j hj => absurd hj (Nat.not_lt_zero j)⟩
    (by
      rintro done cpu rest ⟨p, g⟩ hsplit ⟨hok, hw, hg⟩
      have hroom : filled seats p.fill < filled seats (splitEven l.length seats) := by
        rw [hok.total, filled_splitEven _ hs, hsplit, List.length_append, List.length_cons]
        omega
      obtain ⟨j, hj, hnext, hlt, hfull⟩ := nextOpen_spec hok.fill hw hg (exists_room hroom)
      have hcpu : cpu ∉ done := by
        rw [hsplit] at hl
        exact fun hmem => (List.nodup_append.1 hl).2.2 cpu hmem cpu (List.mem_cons_self ..) rfl
      have hf : j < p.fill.length := hok.fill.symm ▸ hj
      refine ⟨(p.place j cpu, j), ?_, hok.place hj hcpu, hw.modify hf hlt, fun i hi => ?_⟩
      · rw [placePresent, hnext]
      · rw [Packing.place, getD_modify hf, if_neg (Nat.ne_of_lt hi)]
        exact hfull i hi)
  refine ⟨st, hst, hok, fun j hj => full_of_filled_eq hw ?_ hj⟩
  rw [hok.total, filled_splitEven _ hs]

/-- Whichever way the group of an absent CPU is chosen, it is one with room. -/
theorem placeAbsent_spec (topo : CpuTopology) {quota : List Nat} (cpu : Nat)
    (hroom : ∃ j < seats, p.fill.getD j 0 < quota.getD j 0) :
    ∃ j < seats, p.fill.getD j 0 < quota.getD j 0 ∧
      (placeAbsent topo seats quota p cpu : Checked ε _) = .ok (p.place j cpu) := by
  have hmem : ∀ j, j ∈ (List.range seats).filter (fun j => p.fill.getD j 0 < quota.getD j 0) ↔
      j < seats ∧ p.fill.getD j 0 < quota.getD j 0 := by
    intro j
    rw [List.mem_filter, List.mem_range, decide_eq_true_eq]
  unfold placeAbsent
  dsimp only
  generalize (List.range seats).filter (fun j => p.fill.getD j 0 < quota.getD j 0) = room at hmem ⊢
  cases hfind : room.find? fun j =>
    (p.groups.getD j .new).intersects (topo.sibling.getD cpu .new) with
  | some j =>
    obtain ⟨hj, hlt⟩ := (hmem j).1 (List.mem_of_find?_eq_some hfind)
    exact ⟨j, hj, hlt, rfl⟩
  | none =>
    cases room with
    | nil =>
      obtain ⟨j, hj, hlt⟩ := hroom
      cases (hmem j).2 ⟨hj, hlt⟩
    | cons j room =>
      obtain ⟨hj, hlt⟩ := (hmem j).1 (List.mem_cons_self ..)
      exact ⟨j, hj, hlt, rfl⟩

theorem absentPass (topo : CpuTopology) {n : Nat} (hs : 0 < seats) {l : List Nat}
    (hl : (placed ++ l).Nodup)
    (h : p.Ok seats placed) (hw : Within p.fill (splitEven n seats))
    (hn : placed.length + l.length = n) :
    ∃ p' : Packing, (l.foldlM (placeAbsent topo seats (splitEven n seats)) p : Checked ε _) = .ok p' ∧
      p'.Ok seats (placed ++ l) ∧
      ∀ j c, c ∉ l → memAt p'.groups j c = memAt p.groups j c := by
  obtain ⟨p', hp', hok, -, hsame⟩ := foldlM_done (ε := ε) (placeAbsent topo seats (splitEven n seats))
    (fun done (p' : Packing) => p'.Ok seats (placed ++ done) ∧
      Within p'.fill (splitEven n seats) ∧
      ∀ j c, c ∉ l → memAt p'.groups j c = memAt p.groups j c)
    l p ⟨by rwa [List.append_nil], hw, fun _ _ _ => rfl⟩
    (by
      rintro done cpu rest p' hsplit ⟨hok, hw, hsame⟩
      have hroom : filled seats p'.fill < filled seats (splitEven n seats) := by
        rw [hok.total, filled_splitEven _ hs, ← hn, hsplit]
        simp only [List.length_append, List.length_cons]
        omega
      obtain ⟨j, hj, hlt, hplace⟩ := placeAbsent_spec (ε := ε) topo cpu (exists_room hroom)
      have hcpu : cpu ∉ placed ++ done := by
        rw [hsplit, ← List.append_assoc] at hl
        exact fun hm => (List.nodup_append.1 hl).2.2 cpu hm cpu (List.mem_cons_self ..) rfl
      have hf : j < p'.fill.length := hok.fill.symm ▸ hj
      refine ⟨p'.place j cpu, hplace, ?_, hw.modify hf hlt, fun i c hc => ?_⟩
      · rw [← List.append_assoc]
        exact hok.place hj hcpu
      · have hne : c ≠ cpu := fun heq =>
          hc (hsplit ▸ heq ▸ List.mem_append_right _ (List.mem_cons_self ..))
        rw [Packing.memAt_place (hok.groups.symm ▸ hj), hsame i c hc]
        simp [hne])
  exact ⟨p', hp', hok, hsame⟩

/-! ## The node -/

def presentOrder (node : CpuSet) (topo : CpuTopology) : List Nat :=
  (fillOrder node topo).filter topo.present.test

/-- The groups of a node partition its order, and have an even share of the present CPUs each. -/
theorem packNode_spec (node : CpuSet) (hs : 0 < seats) (topo : CpuTopology) :
    ∃ groups, (packNode node seats topo : Checked ε _) = .ok groups ∧ groups.length = seats ∧
      (∀ i j c, memAt groups i c = true → memAt groups j c = true → i = j) ∧
      (∀ c, c ∈ fillOrder node topo ↔ ∃ j, memAt groups j c = true) ∧
      ∀ j < seats, ((groups.getD j .new).and topo.present).weight =
        evenShare (presentOrder node topo).length seats j := by
  have hnodup := (fillOrder_spec node topo).1
  obtain ⟨st, hpresent, hok, hfull⟩ := presentPass (ε := ε) hs (hnodup.filter topo.present.test)
  have hperm := List.filter_append_perm topo.present.test (fillOrder node topo)
  have hlen : ((fillOrder node topo).filter topo.present.test).length +
      ((fillOrder node topo).filter fun c => !topo.present.test c).length =
        (fillOrder node topo).length := by
    rw [← List.length_append, hperm.length_eq]
  have hw : Within st.1.fill (splitEven (fillOrder node topo).length seats) := by
    intro j
    rcases Nat.lt_or_ge j seats with hj | hj
    · rw [hfull j hj]
      exact splitEven_within (Nat.le_of_add_right_le (Nat.le_of_eq hlen)) seats j
    · rw [List.getD_eq_getElem?_getD, List.getElem?_eq_none (hok.fill.symm ▸ hj)]
      exact Nat.zero_le _
  obtain ⟨p, habsent, hok', hsame⟩ := absentPass (ε := ε) topo hs
    (hperm.nodup_iff.2 hnodup) hok hw hlen
  refine ⟨p.groups, ?_, hok'.groups, hok'.apart, fun c => ?_, fun j hj => ?_⟩
  · rw [packNode, if_neg (Nat.ne_of_gt hs)]
    dsimp only
    rw [hpresent, Checked.bind_ok, habsent]
    rfl
  · rw [← hok'.mem c, hperm.mem_iff]
  · rw [← splitEven_getD hj]
    refine Eq.trans ?_ (hfull j hj)
    rw [hok.count j]
    refine CpuSet.weight_congr fun c => ?_
    rw [CpuSet.test_and]
    cases hc : topo.present.test c with
    | true =>
      rw [Bool.and_true]
      exact hsame j c fun hmem => by
        have := (List.mem_filter.1 hmem).2
        rw [hc] at this
        cases this
    | false =>
      rw [Bool.and_false]
      symm
      rw [Bool.eq_false_iff]
      intro hm
      have := (List.mem_filter.1 ((hok.mem c).2 ⟨j, hm⟩)).2
      rw [hc] at this
      cases this

end Ioutgt.Cpus
