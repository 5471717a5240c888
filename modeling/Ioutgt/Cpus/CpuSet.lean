import Mathlib.Algebra.Ring.Nat
import Mathlib.Data.List.Nodup

/-!
# Sets of CPUs

`CpuSet` of the CPU topology crate: a bit vector that grows on demand, in words of 64 bits. What the
set holds is `test`; everything else is stated through it.

* `test_set`, `test_and`, `test_or`, `test_andnot`: what the mask operations hold;
* `mem_iter`, `iter_sorted`, `weight_eq`: the CPUs of a set, in order.
-/

namespace Ioutgt.Cpus

variable {s : CpuSet} {c : Nat}

structure CpuSet where
  words : List (BitVec 64)
  deriving DecidableEq, Repr

def hasBit (w : BitVec 64) (b : Nat) : Bool := w &&& (1#64 <<< b) != 0

def countOnes (w : BitVec 64) : Nat := ((List.range 64).filter (hasBit w)).length

namespace CpuSet

def new : CpuSet := ⟨[]⟩

/-- `words.resize(len, 0)`, where the vector only grows. -/
def grown (words : List (BitVec 64)) (len : Nat) : List (BitVec 64) :=
  words ++ List.replicate (len - words.length) 0

def set (s : CpuSet) (cpu : Nat) : CpuSet :=
  ⟨(grown s.words (cpu / 64 + 1)).modify (cpu / 64) (· ||| 1#64 <<< (cpu % 64))⟩

def clear (s : CpuSet) (cpu : Nat) : CpuSet :=
  ⟨s.words.modify (cpu / 64) (· &&& ~~~(1#64 <<< (cpu % 64)))⟩

def ofList (cpus : List Nat) : CpuSet := cpus.foldl set new

def test (s : CpuSet) (cpu : Nat) : Bool :=
  match s.words[cpu / 64]? with
  | some w => hasBit w (cpu % 64)
  | none => false

def weight (s : CpuSet) : Nat := (s.words.map countOnes).sum

def isEmpty (s : CpuSet) : Bool := s.words.all (· == 0)

def iter (s : CpuSet) : List Nat :=
  s.words.zipIdx.flatMap fun p => ((List.range 64).filter (hasBit p.1)).map (64 * p.2 + ·)

def first (s : CpuSet) : Option Nat := s.iter.head?

def last (s : CpuSet) : Option Nat :=
  (s.words.zipIdx.reverse.find? (·.1 ≠ 0)).map fun p => 64 * p.2 + (63 - p.1.clz.toNat)

def and (s t : CpuSet) : CpuSet := ⟨List.zipWith (· &&& ·) s.words t.words⟩

def or (s t : CpuSet) : CpuSet :=
  ⟨(List.range (max s.words.length t.words.length)).map fun i =>
    s.words.getD i 0 ||| t.words.getD i 0⟩

def andnot (s t : CpuSet) : CpuSet :=
  ⟨s.words.zipIdx.map fun p => p.1 &&& ~~~(t.words.getD p.2 0)⟩

def intersects (s t : CpuSet) : Bool := (List.zipWith (· &&& ·) s.words t.words).any (· != 0)

/-! ## Membership -/

theorem getLsbD_bit (b i : Nat) : (1#64 <<< b).getLsbD i = (decide (b < 64) && decide (b = i)) :=
  BitVec.getLsbD_twoPow b i

theorem hasBit_eq (w : BitVec 64) (b : Nat) : hasBit w b = w.getLsbD b := by
  unfold hasBit
  rw [Bool.eq_iff_iff, bne_iff_ne, ne_eq, BitVec.ofNat_eq_ofNat, BitVec.zero_iff_eq_false]
  simp only [BitVec.getLsbD_and, getLsbD_bit, not_forall, Bool.not_eq_false, Bool.and_eq_true,
    decide_eq_true_eq]
  constructor
  · rintro ⟨i, hw, -, rfl⟩
    exact hw
  · intro hw
    exact ⟨b, hw, BitVec.lt_of_getLsbD hw, rfl⟩

theorem test_eq (s : CpuSet) (cpu : Nat) :
    s.test cpu = (s.words.getD (cpu / 64) 0).getLsbD (cpu % 64) := by
  unfold test
  rw [List.getD_eq_getElem?_getD]
  cases s.words[cpu / 64]? with
  | none => simp
  | some w => exact hasBit_eq w _

@[simp] theorem test_new (cpu : Nat) : new.test cpu = false := rfl

@[simp] theorem test_set (s : CpuSet) (cpu c : Nat) :
    (s.set cpu).test c = (s.test c || decide (c = cpu)) := by
  have hgrown : ∀ i, (grown s.words (cpu / 64 + 1)).getD i 0 = s.words.getD i 0 := by
    intro i
    simp only [grown, List.getD_eq_getElem?_getD, List.getElem?_append, List.getElem?_replicate]
    split_ifs with h₁ h₂
    · rfl
    · simp [List.getElem?_eq_none (Nat.not_lt.1 h₁)]
    · simp [List.getElem?_eq_none (Nat.not_lt.1 h₁)]
  have hlen : cpu / 64 < (grown s.words (cpu / 64 + 1)).length := by
    simp only [grown, List.length_append, List.length_replicate]
    omega
  rw [test_eq, test_eq, set, List.getD_eq_getElem?_getD, List.getElem?_modify]
  by_cases hword : cpu / 64 = c / 64
  · have hget := hgrown (c / 64)
    have hc : c / 64 < (grown s.words (cpu / 64 + 1)).length := hword ▸ hlen
    rw [List.getD_eq_getElem?_getD, List.getElem?_eq_getElem hc, Option.getD_some] at hget
    rw [List.getElem?_eq_getElem hc]
    simp only [if_pos hword, Option.map_eq_map, Option.map_some, Option.getD_some, hget,
      BitVec.getLsbD_or, getLsbD_bit]
    congr 1
    rw [decide_eq_true (Nat.mod_lt cpu (by decide)), Bool.true_and, decide_eq_decide]
    omega
  · have hne : c ≠ cpu := fun h => hword (h ▸ rfl)
    have hget := hgrown (c / 64)
    rw [List.getD_eq_getElem?_getD] at hget
    simp only [if_neg hword, Option.map_eq_map, Option.map_id_fun', id, hget, decide_eq_false hne,
      Bool.or_false]

@[simp] theorem test_clear (s : CpuSet) (cpu c : Nat) :
    (s.clear cpu).test c = (s.test c && decide (c ≠ cpu)) := by
  rw [test_eq, test_eq, clear, List.getD_eq_getElem?_getD, List.getD_eq_getElem?_getD,
    List.getElem?_modify]
  cases s.words[c / 64]? with
  | none => simp
  | some w =>
    by_cases hword : cpu / 64 = c / 64
    · have hbit : c % 64 = cpu % 64 ↔ c = cpu := by omega
      simp [hword, Nat.mod_lt, hbit, ← BitVec.twoPow_eq]
    · have hne : c ≠ cpu := fun h => hword (h ▸ rfl)
      simp [hword, hne]

theorem test_foldl_set (cpus : List Nat) (s : CpuSet) (c : Nat) :
    (cpus.foldl set s).test c = (s.test c || decide (c ∈ cpus)) := by
  induction cpus generalizing s with
  | nil => simp
  | cons a cpus ih =>
    rw [List.foldl_cons, ih, test_set]
    simp [Bool.or_assoc]

theorem test_ofList (cpus : List Nat) (c : Nat) : (ofList cpus).test c = decide (c ∈ cpus) :=
  test_foldl_set cpus new c

@[simp] theorem test_and (s t : CpuSet) (c : Nat) : (s.and t).test c = (s.test c && t.test c) := by
  rw [test_eq, test_eq, test_eq, and]
  simp only [List.getD_eq_getElem?_getD, List.getElem?_zipWith]
  cases s.words[c / 64]? <;> cases t.words[c / 64]? <;> simp

@[simp] theorem test_or (s t : CpuSet) (c : Nat) : (s.or t).test c = (s.test c || t.test c) := by
  rw [test_eq, test_eq, test_eq, or]
  simp only [List.getD_eq_getElem?_getD, List.getElem?_map]
  by_cases h : c / 64 < max s.words.length t.words.length
  · rw [List.getElem?_range h]
    simp
  · have hs : s.words[c / 64]? = none := List.getElem?_eq_none (by omega)
    have ht : t.words[c / 64]? = none := List.getElem?_eq_none (by omega)
    have hr : (List.range (max s.words.length t.words.length))[c / 64]? = none :=
      List.getElem?_eq_none (by simpa using h)
    simp [hs, ht, hr]

@[simp] theorem test_andnot (s t : CpuSet) (c : Nat) :
    (s.andnot t).test c = (s.test c && !t.test c) := by
  rw [test_eq, test_eq, test_eq, andnot]
  simp only [List.getD_eq_getElem?_getD, List.getElem?_map, List.getElem?_zipIdx]
  cases s.words[c / 64]? with
  | none => simp
  | some w =>
    simp [Nat.mod_lt c]

/-! ## The CPUs of a set -/

theorem mem_iter : c ∈ s.iter ↔ s.test c = true := by
  unfold iter test
  simp only [List.mem_flatMap, List.mem_map, List.mem_filter, List.mem_range, Prod.exists,
    List.mem_zipIdx_iff_getElem?]
  constructor
  · rintro ⟨w, i, hw, b, ⟨hb, hbit⟩, rfl⟩
    rw [show (64 * i + b) / 64 = i by omega, show (64 * i + b) % 64 = b by omega, hw]
    exact hbit
  · intro h
    cases hw : s.words[c / 64]? with
    | none =>
      rw [hw] at h
      cases h
    | some w =>
      rw [hw] at h
      exact ⟨w, c / 64, hw, c % 64, ⟨Nat.mod_lt _ (by decide), h⟩, Nat.div_add_mod c 64⟩

theorem iter_sorted (s : CpuSet) : s.iter.Pairwise (· < ·) := by
  unfold iter
  rw [List.pairwise_flatMap]
  refine ⟨fun p _ => ?_, ?_⟩
  · exact List.pairwise_map.2 ((List.pairwise_lt_range.filter _).imp fun h => Nat.add_lt_add_left h _)
  · have hidx : (s.words.zipIdx.map Prod.snd).Pairwise (· < ·) := by
      rw [List.zipIdx_map_snd]
      exact List.pairwise_lt_range'
    refine (List.pairwise_map.1 hidx).imp fun {p q} hlt c hp d hq => ?_
    simp only [List.mem_map, List.mem_filter, List.mem_range] at hp hq
    obtain ⟨a, ⟨ha, -⟩, rfl⟩ := hp
    obtain ⟨b, ⟨hb, -⟩, rfl⟩ := hq
    omega

theorem iter_nodup (s : CpuSet) : s.iter.Nodup := (iter_sorted s).imp Nat.ne_of_lt

theorem weight_eq (s : CpuSet) : s.weight = s.iter.length := by
  unfold weight iter
  rw [List.length_flatMap]
  simp only [List.length_map]
  conv_lhs => rw [← List.zipIdx_map_fst 0 s.words, List.map_map]
  rfl

theorem isEmpty_iff : s.isEmpty = true ↔ ∀ c, s.test c = false := by
  unfold isEmpty
  rw [List.all_eq_true]
  constructor
  · intro h c
    rw [test_eq, List.getD_eq_getElem?_getD]
    cases hw : s.words[c / 64]? with
    | none => simp
    | some w =>
      have := h w (List.mem_of_getElem? hw)
      simp only [beq_iff_eq] at this
      simp [this]
  · intro h w hw
    obtain ⟨i, hi⟩ := List.mem_iff_getElem?.1 hw
    simp only [beq_iff_eq]
    refine BitVec.eq_of_getLsbD_eq fun b hb => ?_
    have hbit := h (64 * i + b)
    rw [test_eq, List.getD_eq_getElem?_getD, show (64 * i + b) / 64 = i by omega,
      show (64 * i + b) % 64 = b by omega, hi] at hbit
    simpa using hbit

theorem isEmpty_iff_iter : s.isEmpty = true ↔ s.iter = [] := by
  rw [isEmpty_iff, List.eq_nil_iff_forall_not_mem]
  exact forall_congr' fun c => by rw [mem_iter, Bool.not_eq_true]

theorem not_isEmpty (h : s.test c = true) : s.isEmpty = false := by
  rw [Bool.eq_false_iff]
  intro he
  rw [isEmpty_iff.1 he c] at h
  cases h

theorem exists_of_not_isEmpty (h : s.isEmpty = false) : ∃ c, s.test c = true := by
  by_contra hno
  rw [isEmpty_iff.2 fun c => by simpa using fun hc => hno ⟨c, hc⟩] at h
  cases h

theorem weight_set (h : s.test c = false) : (s.set c).weight = s.weight + 1 := by
  have hperm : (s.set c).iter.Perm (c :: s.iter) := by
    refine (List.perm_ext_iff_of_nodup (iter_nodup _) (List.nodup_cons.2 ⟨?_, iter_nodup s⟩)).2 ?_
    · rw [mem_iter, h]
      exact Bool.false_ne_true
    · intro d
      rw [mem_iter, test_set, List.mem_cons, mem_iter, Bool.or_eq_true, decide_eq_true_eq, or_comm]
  rw [weight_eq, weight_eq, hperm.length_eq, List.length_cons]

theorem weight_congr {t : CpuSet} (h : ∀ c, s.test c = t.test c) : s.weight = t.weight := by
  rw [weight_eq, weight_eq]
  refine ((List.perm_ext_iff_of_nodup (iter_nodup s) (iter_nodup t)).2 fun c => ?_).length_eq
  rw [mem_iter, mem_iter, h]

theorem weight_eq_zero_iff : s.weight = 0 ↔ s.isEmpty = true := by
  rw [weight_eq, isEmpty_iff_iter, List.length_eq_zero_iff]

end CpuSet

end Ioutgt.Cpus
