import Mathlib.Data.Set.Card
import Mathlib.Order.Bounds.Basic
import Ioutgt.Cpus.CpuSet

/-!
# CPU sets as sets

A set of CPUs may be held in more words than its members need, and two sets are compared word by word.
Everything else that can be asked of a set depends on its members.

* `last_eq_some_iff`, `intersects_iff`: the highest CPU, and whether two sets meet;
* `eq_iff`: what the derived equality compares;
* `built_sets_iff`: sets by the operations that built them.
-/

namespace Ioutgt.Cpus

namespace CpuSet

def members (s : CpuSet) : Set Nat := {c | s.test c = true}

theorem members_new : new.members = ∅ := by
  ext c
  simp [members]

theorem intersects_iff {s t : CpuSet} :
    s.intersects t = true ↔ (s.members ∩ t.members).Nonempty := by
  have hempty : s.intersects t = !(s.and t).isEmpty := by
    simp only [intersects, and, isEmpty, List.not_all_eq_any_not]
    rfl
  rw [hempty, Bool.not_eq_true', ← Bool.not_eq_true, isEmpty_iff]
  simp [Set.Nonempty, members]

theorem ncard_members (s : CpuSet) : s.members.ncard = s.weight := by
  have hfin : s.members = ↑s.iter.toFinset := by
    ext c
    simp [members, mem_iter]
  rw [hfin, Set.ncard_coe_finset, List.toFinset_card_of_nodup (iter_nodup s), weight_eq]

theorem head?_eq_some_iff {l : List Nat} (h : l.Pairwise (· < ·)) {c : Nat} :
    l.head? = some c ↔ IsLeast {d | d ∈ l} c := by
  cases l with
  | nil => simp [IsLeast]
  | cons a l =>
    have hle : ∀ d ∈ l, a < d := (List.pairwise_cons.1 h).1
    constructor
    · rintro ⟨⟩
      exact ⟨List.mem_cons_self .., fun d hd => (List.mem_cons.1 hd).elim (·.ge) fun hd => (hle d hd).le⟩
    · rintro ⟨hmem, hleast⟩
      have hca : c ≤ a := hleast (List.mem_cons_self ..)
      refine congrArg some (Nat.le_antisymm ?_ hca)
      exact (List.mem_cons.1 hmem).elim (·.ge) fun hd => (hle c hd).le

/-! ## The highest CPU -/

theorem mem_members_append {ws : List (BitVec 64)} {w : BitVec 64} {c : Nat} :
    c ∈ (mk (ws ++ [w])).members ↔
      c ∈ (mk ws).members ∨ c / 64 = ws.length ∧ w.getLsbD (c % 64) = true := by
  simp only [members, Set.mem_ofPred_eq, test_eq, List.getD_eq_getElem?_getD, List.getElem?_append]
  split
  · rename_i hlt
    simp [hlt.ne]
  · rename_i hge
    rw [List.getElem?_eq_none (Nat.not_lt.1 hge)]
    by_cases heq : c / 64 = ws.length
    · simp [heq]
    · simp [heq, List.getElem?_eq_none (show [w].length ≤ c / 64 - ws.length by simp; omega)]

theorem last_append (ws : List (BitVec 64)) (w : BitVec 64) : (mk (ws ++ [w])).last =
    if w = 0 then (mk ws).last else some (64 * ws.length + (63 - w.clz.toNat)) := by
  simp only [last, List.zipIdx_append, List.reverse_append, List.zipIdx_singleton,
    List.reverse_singleton, List.singleton_append, List.find?_cons]
  split <;> simp_all

theorem isGreatest_clz {w : BitVec 64} (h : w ≠ 0) :
    IsGreatest {b | w.getLsbD b = true} (63 - w.clz.toNat) := by
  refine ⟨BitVec.getLsbD_true_clz_of_ne_zero (by decide) h, fun b hb => ?_⟩
  by_contra hlt
  have hbound := BitVec.toNat_lt_two_pow_sub_clz (x := w)
  have hzero : w.toNat.testBit b = false :=
    Nat.testBit_lt_two_pow (hbound.trans_le (Nat.pow_le_pow_right (by decide) (by omega)))
  exact absurd (show w.toNat.testBit b = true from hb) (by simp [hzero])

theorem last_spec (s : CpuSet) :
    (s.last = none ∧ s.members = ∅) ∨ ∃ c, s.last = some c ∧ IsGreatest s.members c := by
  obtain ⟨words⟩ := s
  induction words using List.reverseRecOn with
  | nil => exact .inl ⟨rfl, members_new⟩
  | append_singleton ws w ih =>
    rw [last_append]
    by_cases hw : w = 0
    · have hsame : (mk (ws ++ [w])).members = (mk ws).members := by
        ext c
        simp [mem_members_append, hw]
      rw [if_pos hw, hsame]
      exact ih
    · obtain ⟨htop, hmax⟩ := isGreatest_clz hw
      have hlt : 63 - w.clz.toNat < 64 := by omega
      refine .inr ⟨_, if_neg hw, mem_members_append.2 (.inr ⟨by omega, ?_⟩), fun c hc => ?_⟩
      · rwa [Nat.mul_add_mod, Nat.mod_eq_of_lt hlt]
      · rcases mem_members_append.1 hc with hc | ⟨hword, hbit⟩
        · -- an earlier word
          have hword : c / 64 < ws.length := by
            by_contra hge
            simp [members, test_eq, List.getElem?_eq_none (Nat.not_lt.1 hge)] at hc
          omega
        · have := hmax hbit
          omega

theorem last_eq_some_iff {s : CpuSet} {c : Nat} : s.last = some c ↔ IsGreatest s.members c := by
  rcases last_spec s with ⟨hnone, hempty⟩ | ⟨d, hd, hmax⟩
  · simp [hnone, hempty, IsGreatest]
  · rw [hd, Option.some.injEq]
    exact ⟨fun h => h ▸ hmax, fun h => hmax.unique h⟩

/-! ## Equality -/

theorem eq_iff {s t : CpuSet} :
    s = t ↔ s.members = t.members ∧ s.words.length = t.words.length := by
  constructor
  · rintro rfl
    exact ⟨rfl, rfl⟩
  · rintro ⟨hmem, hlen⟩
    obtain ⟨ws⟩ := s
    obtain ⟨vs⟩ := t
    refine congrArg mk (List.ext_getElem hlen fun i hi hi' => BitVec.eq_of_getLsbD_eq fun b hb => ?_)
    have hbit : (mk ws).test (64 * i + b) = (mk vs).test (64 * i + b) :=
      Bool.eq_iff_iff.2 (Set.ext_iff.1 hmem (64 * i + b))
    rw [test_eq, test_eq, show (64 * i + b) / 64 = i by omega, show (64 * i + b) % 64 = b by omega,
      List.getD_eq_getElem?_getD, List.getD_eq_getElem?_getD, List.getElem?_eq_getElem hi,
      List.getElem?_eq_getElem hi'] at hbit
    exact hbit

end CpuSet

inductive Build where
  | new
  | set (b : Build) (cpu : Nat)
  | clear (b : Build) (cpu : Nat)
  | and (b c : Build)
  | or (b c : Build)
  | andnot (b c : Build)

namespace Build

def eval : Build → CpuSet
  | new => .new
  | set b cpu => b.eval.set cpu
  | clear b cpu => b.eval.clear cpu
  | and b c => b.eval.and c.eval
  | or b c => b.eval.or c.eval
  | andnot b c => b.eval.andnot c.eval

def members : Build → Set Nat
  | new => ∅
  | set b cpu => insert cpu b.members
  | clear b cpu => b.members \ {cpu}
  | and b c => b.members ∩ c.members
  | or b c => b.members ∪ c.members
  | andnot b c => b.members \ c.members

/-- How many words the operations leave, whatever is in them: `set` and `or` grow, `and` cuts to the
shorter. -/
def width : Build → Nat
  | new => 0
  | set b cpu => max b.width (cpu / 64 + 1)
  | clear b _ => b.width
  | and b c => min b.width c.width
  | or b c => max b.width c.width
  | andnot b _ => b.width

theorem words_length (b : Build) : b.eval.words.length = b.width := by
  induction b with
  | new => rfl
  | set b cpu ih =>
    simp only [eval, CpuSet.set, CpuSet.grown, List.length_modify, List.length_append,
      List.length_replicate, ih, width]
    omega
  | clear b cpu ih => rw [eval, CpuSet.clear, List.length_modify, ih, width]
  | and b c hb hc => rw [eval, CpuSet.and, List.length_zipWith, hb, hc, width]
  | or b c hb hc => rw [eval, CpuSet.or, List.length_map, List.length_range, hb, hc, width]
  | andnot b c hb hc => rw [eval, CpuSet.andnot, List.length_map, List.length_zipIdx, hb, width]

theorem members_eval (b : Build) : b.eval.members = b.members := by
  induction b with
  | new => exact CpuSet.members_new
  | set b cpu ih =>
    rw [members, ← ih]
    ext c
    simp [CpuSet.members, eval, or_comm]
  | clear b cpu ih =>
    rw [members, ← ih]
    ext c
    simp [CpuSet.members, eval]
  | and b c hb hc =>
    rw [members, ← hb, ← hc]
    ext d
    simp [CpuSet.members, eval]
  | or b c hb hc =>
    rw [members, ← hb, ← hc]
    ext d
    simp [CpuSet.members, eval]
  | andnot b c hb hc =>
    rw [members, ← hb, ← hc]
    ext d
    simp [CpuSet.members, eval]

end Build

/-- **Sets of CPUs, by the operations that built them**: each has the members it should, and all that can
be observed of it is a fact about those, but for the comparison of two sets: they compare as their members
do unless they have the same members and their operations leave different numbers of words. -/
theorem built_sets_iff (b c : Build) :
    b.eval.members = b.members ∧ b.eval.weight = b.members.ncard ∧
      (b.eval.isEmpty = true ↔ b.members = ∅) ∧
      (∀ cpu, b.eval.first = some cpu ↔ IsLeast b.members cpu) ∧
      (∀ cpu, b.eval.last = some cpu ↔ IsGreatest b.members cpu) ∧
      (b.eval.intersects c.eval = true ↔ (b.members ∩ c.members).Nonempty) ∧
      ((b.eval = c.eval ↔ b.members = c.members) ↔
        (b.members = c.members → b.width = c.width)) := by
  have hb := b.members_eval
  have hc := c.members_eval
  refine ⟨hb, ?_, ?_, fun cpu => ?_, fun cpu => ?_, ?_, ?_⟩
  · rw [← hb, CpuSet.ncard_members]
  · rw [← hb, CpuSet.isEmpty_iff, Set.eq_empty_iff_forall_notMem]
    simp [CpuSet.members]
  · rw [← hb, CpuSet.first, CpuSet.head?_eq_some_iff (CpuSet.iter_sorted _)]
    simp [CpuSet.mem_iter, CpuSet.members]
  · rw [← hb, CpuSet.last_eq_some_iff]
  · rw [← hb, ← hc, CpuSet.intersects_iff]
  · rw [CpuSet.eq_iff, hb, hc, b.words_length, c.words_length]
    tauto

/-- A set whose only CPU was removed has no members and is not the empty set. -/
theorem emptied_set_differs : (Build.clear (.set .new 0) 0).eval ≠ Build.new.eval ∧
    (Build.clear (.set .new 0) 0).members = Build.new.members := by
  refine ⟨by decide, ?_⟩
  simp [Build.members]

end Ioutgt.Cpus
