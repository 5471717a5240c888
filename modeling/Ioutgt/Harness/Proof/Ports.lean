import Ioutgt.Lib.Fold
import Ioutgt.Core.Proof.Registry
import Ioutgt.Harness.Ports

/-!
# Port processes share no controller id

* `portSlice`, `cntlidRange_ok`: the slice of a port, which the 16-bit arithmetic computes exactly;
* `portSlice_disjoint`, `portSlice_cover`: the slices partition the ids;
* `Reached`: a registry that came about by calls, which keeps its live ids in its slice
  (`History.Ok`);
* `run_reached`: all of them do, whatever calls the processes make.
-/

namespace Ioutgt.Harness

open Lib Ioutgt.Core

/-! ## The slices -/

section Slices

variable {n : Nat}

def portSlice (h1 : 1 ≤ n) (hmax : n ≤ cntlidMax) (i : Fin n) : Slice where
  min := 1 + i * (cntlidMax / n)
  max := if i + 1 = n then cntlidMax else (i + 1) * (cntlidMax / n)
  valid := by
    have hone : 1 ≤ cntlidMax / n := (Nat.one_le_div_iff h1).2 hmax
    have hall : n * (cntlidMax / n) ≤ cntlidMax := Nat.mul_div_le ..
    have hi : (i + 1) * (cntlidMax / n) ≤ n * (cntlidMax / n) := Nat.mul_le_mul_right _ i.2
    have hsucc : (i + 1) * (cntlidMax / n) = i * (cntlidMax / n) + cntlidMax / n :=
      Nat.succ_mul ..
    split <;> omega

theorem cntlidRange_ok (h1 : 1 ≤ n) (hmax : n ≤ cntlidMax) (i : Fin n) :
    cntlidRange n i = .ok ((portSlice h1 hmax i).min, (portSlice h1 hmax i).max) := by
  have hvalid := (portSlice h1 hmax i).valid
  have hone : 1 ≤ cntlidMax / n := (Nat.one_le_div_iff h1).2 hmax
  have hall : n * (cntlidMax / n) ≤ cntlidMax := Nat.mul_div_le ..
  have hi : (i + 1) * (cntlidMax / n) ≤ n * (cntlidMax / n) := Nat.mul_le_mul_right _ i.2
  have hsucc : (i + 1) * (cntlidMax / n) = i * (cntlidMax / n) + cntlidMax / n := Nat.succ_mul ..
  have hM : cntlidMax = 0xFFEF := rfl
  have hi' := i.2
  unfold cntlidRange
  rw [Checked.require_ok _ (by omega), Checked.bind_ok]
  dsimp only
  rw [Checked.mul_ok (by omega), Checked.bind_ok, Checked.add_ok (by omega), Checked.bind_ok,
    Checked.add_ok (by omega), Checked.bind_ok]
  unfold portSlice
  dsimp only
  by_cases hlast : i.1 + 1 = n
  · rw [if_pos hlast, if_pos hlast]
    rfl
  · rw [if_neg hlast, if_neg hlast, Checked.add_ok (by omega), Checked.bind_ok,
      Checked.sub_ok (by omega), Checked.bind_ok, hsucc]
    have hend : 1 + i.1 * (cntlidMax / n) + cntlidMax / n - 1 =
        i.1 * (cntlidMax / n) + cntlidMax / n := by omega
    rw [hend]
    rfl

variable {h1 : 1 ≤ n} {hmax : n ≤ cntlidMax} {i j : Fin n} {id : Nat}

/-- A slice ends before a later one starts: only the last takes the remainder. -/
theorem portSlice_lt (hij : i.1 < j.1) : (portSlice h1 hmax i).max < (portSlice h1 hmax j).min := by
  have hj := j.2
  have hstep : (i.1 + 1) * (cntlidMax / n) ≤ j.1 * (cntlidMax / n) := Nat.mul_le_mul_right _ hij
  unfold portSlice
  dsimp only
  rw [if_neg (by omega)]
  omega

theorem portSlice_disjoint (hi : (portSlice h1 hmax i).Has id) (hj : (portSlice h1 hmax j).Has id) :
    i = j := by
  unfold Slice.Has at hi hj
  rcases Nat.lt_trichotomy i.1 j.1 with hlt | heq | hgt
  · have := @portSlice_lt n h1 hmax i j hlt
    omega
  · exact Fin.ext heq
  · have := @portSlice_lt n h1 hmax j i hgt
    omega

theorem portSlice_cover (h1 : 1 ≤ n) (hmax : n ≤ cntlidMax) (hlow : 1 ≤ id)
    (hhigh : id ≤ cntlidMax) : ∃ i, (portSlice h1 hmax i).Has id := by
  have hone : 1 ≤ cntlidMax / n := (Nat.one_le_div_iff h1).2 hmax
  have hdiv := Nat.div_mul_le_self (id - 1) (cntlidMax / n)
  have hnext := Nat.lt_div_mul_add (a := id - 1) hone
  by_cases hk : (id - 1) / (cntlidMax / n) < n - 1
  · -- a whole slice
    refine ⟨⟨(id - 1) / (cntlidMax / n), by omega⟩, ?_, ?_⟩
    · show 1 + (id - 1) / (cntlidMax / n) * (cntlidMax / n) ≤ id
      omega
    · show id ≤ if (id - 1) / (cntlidMax / n) + 1 = n then cntlidMax
        else ((id - 1) / (cntlidMax / n) + 1) * (cntlidMax / n)
      rw [if_neg (by omega), Nat.succ_mul]
      omega
  · have hlast : (n - 1) * (cntlidMax / n) ≤ (id - 1) / (cntlidMax / n) * (cntlidMax / n) :=
      Nat.mul_le_mul_right _ (by omega)
    refine ⟨⟨n - 1, by omega⟩, ?_, ?_⟩
    · show 1 + (n - 1) * (cntlidMax / n) ≤ id
      omega
    · show id ≤ if n - 1 + 1 = n then _ else _
      rw [if_pos (by omega)]
      exact hhigh

end Slices

/-! ## The processes -/

/-- The registry came about by calls to an empty one over `slice`. -/
def Reached (slice : Slice) (r : Registry) : Prop :=
  ∃ h : History, h.registry = r ∧ h.registry.slice = slice ∧ h.Ok

theorem reached_new (slice : Slice) : Reached slice (.ofSlice slice) :=
  ⟨.start slice, rfl, rfl, History.start_ok slice⟩

theorem Reached.has {slice : Slice} {r : Registry} (h : Reached slice r) {id : Nat}
    (hid : r.contains id) : slice.Has id := by
  obtain ⟨h, rfl, rfl, hok⟩ := h
  obtain ⟨e, he⟩ := Option.isSome_iff_exists.1 hid
  exact (hok id e he).slice

theorem Reached.call {slice : Slice} {r : Registry} (h : Reached slice r) (c : Registry.Call) :
    ∃ out, (r.call c : Checked String _) = .ok out ∧ Reached slice out.2 := by
  obtain ⟨h, rfl, rfl, hok⟩ := h
  obtain ⟨a, h', hcall, hans⟩ := hok.call (ε := String) c
  obtain ⟨out, hout, hrec⟩ := Checked.bind_eq_ok.1 hcall
  refine ⟨out, hout, h', ?_, hans.slice, hans.ok⟩
  cases hrec
  unfold History.record
  split <;> rfl

section Processes

variable {α : Type} {targets : List α}

theorem forkExtraPorts_eq (targets : List α) :
    forkExtraPorts targets = targets.zipIdx.map fun e => (e.2, e.1) := by
  cases targets with
  | nil => rfl
  | cons first extra => simp [forkExtraPorts, List.zipIdx_cons, List.zipIdx_succ]

theorem forkExtraPorts_getElem? {i : Nat} {mine : Nat × α}
    (h : (forkExtraPorts targets)[i]? = some mine) : mine.1 = i ∧ i < targets.length := by
  rw [forkExtraPorts_eq, List.getElem?_map] at h
  obtain ⟨e, he, rfl⟩ := Option.map_eq_some_iff.1 h
  rw [List.getElem?_zipIdx] at he
  obtain ⟨t, ht, rfl⟩ := Option.map_eq_some_iff.1 he
  exact ⟨Nat.zero_add i, List.getElem?_eq_some_iff.1 ht |>.1⟩

def AllReached (slice : Fin targets.length → Slice) (ps : List (Process α)) : Prop :=
  ∀ i p, ps[i]? = some p → ∃ h : i < targets.length, Reached (slice ⟨i, h⟩) p.registry

theorem applyFile_ok (h1 : 1 ≤ targets.length) (hmax : targets.length ≤ cntlidMax) :
    ∃ ps, applyFile targets = .ok ps ∧ ps.length = targets.length ∧
      AllReached (portSlice h1 hmax) ps := by
  have hstart : ∀ mine ∈ forkExtraPorts targets, ∃ p,
      startProcess targets.length mine = .ok p ∧
        ∃ h : mine.1 < targets.length, p.registry = .ofSlice (portSlice h1 hmax ⟨mine.1, h⟩) := by
    intro mine hmine
    obtain ⟨i, hi⟩ := List.mem_iff_getElem?.1 hmine
    obtain ⟨rfl, hlt⟩ := forkExtraPorts_getElem? hi
    have hvalid := (portSlice h1 hmax ⟨mine.1, hlt⟩).valid
    refine ⟨⟨mine.2, .ofSlice (portSlice h1 hmax ⟨mine.1, hlt⟩)⟩, ?_, hlt, rfl⟩
    unfold startProcess
    rw [cntlidRange_ok h1 hmax ⟨mine.1, hlt⟩, Checked.bind_ok]
    dsimp only
    rw [Registry.new, dif_pos hvalid]
    rfl
  obtain ⟨ps, hps, hall⟩ := mapM_forall₂ hstart
  have hlen : (forkExtraPorts targets).length = targets.length := by simp [forkExtraPorts_eq]
  refine ⟨ps, ?_, hall.length_eq.symm.trans hlen, fun i p hp => ?_⟩
  · unfold applyFile
    unfold cntlidMax at hmax
    rw [if_pos (by omega), hps]
  · obtain ⟨mine, hmine, h, hreg⟩ := forall₂_getElem? hall hp
    obtain ⟨rfl, -⟩ := forkExtraPorts_getElem? hmine
    exact ⟨h, hreg ▸ reached_new _⟩

theorem AllReached.step {slice : Fin targets.length → Slice} {ps : List (Process α)}
    (h : AllReached slice ps) (a : Nat × Registry.Call) :
    ∃ ps', Harness.step ps a = .ok ps' ∧ ps'.length = ps.length ∧ AllReached slice ps' := by
  unfold Harness.step
  cases hp : ps[a.1]? with
  | none => exact ⟨ps, rfl, rfl, h⟩
  | some p =>
    obtain ⟨hlt, hreached⟩ := h a.1 p hp
    obtain ⟨out, hcall, hout⟩ := hreached.call a.2
    refine ⟨ps.set a.1 { p with registry := out.2 }, ?_, List.length_set, fun i q hq => ?_⟩
    · dsimp only
      rw [hcall]
      rfl
    rw [List.getElem?_set] at hq
    split at hq
    · rename_i hi
      subst hi
      split at hq
      · cases hq
        exact ⟨hlt, hout⟩
      · cases hq
    · exact h i q hq

theorem run_reached {slice : Fin targets.length → Slice} {ps : List (Process α)}
    (h : AllReached slice ps) (as : List (Nat × Registry.Call)) :
    ∃ ps', run ps as = .ok ps' ∧ ps'.length = ps.length ∧ AllReached slice ps' :=
  @Checked.foldlM_invariant String _ _ Harness.step
    (fun ps' => ps'.length = ps.length ∧ AllReached slice ps')
    (fun a hi => by
      obtain ⟨ps', hstep, hlen, hall⟩ := hi.2.step a
      exact ⟨ps', hstep, hlen.trans hi.1, hall⟩)
    as ps ⟨rfl, h⟩

/-- **No controller id is live in two processes.** For any number of ports up to the highest id,
the slices are computed without wrapping, are not empty, share no id and together have every id; and
after any calls to the registries of the processes, in any order, an id that is live in one of them
is live in no other. -/
theorem port_cntlids_disjoint (targets : List α) (h1 : 1 ≤ targets.length)
    (hmax : targets.length ≤ cntlidMax) :
    ∃ slice : Fin targets.length → Slice,
      (∀ i : Fin targets.length, cntlidRange targets.length i = .ok ((slice i).min, (slice i).max)) ∧
      (∀ i j id, (slice i).Has id → (slice j).Has id → i = j) ∧
      (∀ id, 1 ≤ id → id ≤ cntlidMax → ∃ i, (slice i).Has id) ∧
      ∃ ps, applyFile targets = .ok ps ∧ ∀ as, ∃ ps', run ps as = .ok ps' ∧
        ps'.length = targets.length ∧
        ∀ (i j : Nat) (p q : Process α) (id : Nat), ps'[i]? = some p → ps'[j]? = some q →
          p.registry.contains id → q.registry.contains id → i = j := by
  obtain ⟨ps, happly, hlen, hall⟩ := applyFile_ok h1 hmax
  refine ⟨portSlice h1 hmax, cntlidRange_ok h1 hmax, fun i j id => portSlice_disjoint,
    fun id => portSlice_cover h1 hmax, ps, happly, fun as => ?_⟩
  obtain ⟨ps', hrun, hlen', hall'⟩ := run_reached hall as
  refine ⟨ps', hrun, hlen'.trans hlen, fun i j p q id hp hq hpid hqid => ?_⟩
  obtain ⟨hi, hip⟩ := hall' i p hp
  obtain ⟨hj, hjq⟩ := hall' j q hq
  exact congrArg Fin.val (portSlice_disjoint (hip.has hpid) (hjq.has hqid))

theorem port_cntlids_disjoint_three : ∃ slice : Fin 3 → Slice,
    (∀ i : Fin 3, cntlidRange 3 i = .ok ((slice i).min, (slice i).max)) ∧
    ∀ i j id, (slice i).Has id → (slice j).Has id → i = j := by
  obtain ⟨slice, hrange, hdisjoint, -⟩ :=
    port_cntlids_disjoint [(), (), ()] (by decide) (by decide)
  exact ⟨slice, hrange, hdisjoint⟩

end Processes

end Ioutgt.Harness
