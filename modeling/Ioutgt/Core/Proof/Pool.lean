import Ioutgt.Core.Pool

/-!
# What the data-buffer pool hands out

The allocator's accounting: `BufPool.Wf` says that no free run is empty and that the counter is the
pages of the free runs.

* `firstFit_spec`, `scatter_spec`: what each path takes is exactly what leaves the free list.
* `scatterFits_iff`: of runs that are not empty, `MAX_SEGS` pages never need more than `MAX_SEGS`.
* `BufPool.alloc_eq_none_iff`: a request of at most `MAX_SEGS` pages is refused only for lack of pages,
  in any fragmentation.
* `BufPool.alloc_leaseOk`: a lease is what its users assume it to be.
* `BufPool.alloc_spec`, `BufPool.freeSegs_wf`, `BufPool.reserveArena_spec`: one lemma per operation.
-/

namespace Ioutgt.Core

variable {len : Nat} {r run : Run} {segs : List Run}

def NonEmpty (runs : List Run) : Prop := ∀ r ∈ runs, 0 < r.len

@[simp] theorem pagesIn_nil : pagesIn [] = 0 := rfl

@[simp] theorem pagesIn_cons (r : Run) (runs : List Run) :
    pagesIn (r :: runs) = r.len + pagesIn runs := by
  simp [pagesIn]

@[simp] theorem pagesIn_append (xs ys : List Run) :
    pagesIn (xs ++ ys) = pagesIn xs + pagesIn ys := by
  simp [pagesIn]

theorem pagesOf_pos (len : Nat) : 0 < pagesOf len := by
  unfold pagesOf
  omega

theorem pagesOf_le {n : Nat} (h : len ≤ n * page) (hn : 1 ≤ n) : pagesOf len ≤ n := by
  unfold pagesOf
  rw [page] at *
  omega

theorem le_pagesOf (len : Nat) : len ≤ pagesOf len * page := by
  unfold pagesOf
  rw [page]
  omega

theorem length_flatten_bytes (arena : Nat → UInt8) (runs : List Run) :
    (runs.map (Run.bytes arena)).flatten.length = pagesIn runs * page := by
  induction runs with
  | nil => rfl
  | cons r runs ih =>
    rw [List.map_cons, List.flatten_cons, List.length_append, ih, pagesIn_cons, Nat.add_mul]
    simp [Run.bytes]

theorem nonEmpty_cons {runs : List Run} : NonEmpty (r :: runs) ↔ 0 < r.len ∧ NonEmpty runs := by
  simp [NonEmpty]

theorem nonEmpty_append {xs ys : List Run} :
    NonEmpty (xs ++ ys) ↔ NonEmpty xs ∧ NonEmpty ys := by
  simp only [NonEmpty, List.mem_append]
  exact ⟨fun h => ⟨fun r hr => h r (.inl hr), fun r hr => h r (.inr hr)⟩,
    fun h r hr => hr.elim (h.1 r) (h.2 r)⟩

/-! ## Carving -/

theorem pagesIn_carved {pages : Nat} (h : pages ≤ r.len) :
    pagesIn (r.carved pages) + pages = r.len := by
  unfold Run.carved
  split
  · rename_i heq
    simp [heq]
  · simp
    omega

theorem nonEmpty_carved {pages : Nat} (h : pages ≤ r.len) : NonEmpty (r.carved pages) := by
  unfold Run.carved
  split
  · intro r hr
    cases hr
  · intro r' hr
    obtain rfl := List.mem_singleton.1 hr
    show 0 < r.len - pages
    omega

theorem firstFit_spec {pages : Nat} : ∀ {free : List Run} {run : Run} {rest : List Run},
    firstFit pages free = some (run, rest) →
      run.len = pages ∧ pagesIn rest + pages = pagesIn free ∧ (NonEmpty free → NonEmpty rest)
  | [], _, _, h => by cases h
  | r :: free, run, rest, h => by
    rw [firstFit] at h
    split at h
    · rename_i hle
      obtain ⟨rfl, rfl⟩ := Prod.mk.inj (Option.some.inj h)
      have hcarved := pagesIn_carved hle
      refine ⟨rfl, by simp; omega, fun hne => ?_⟩
      exact nonEmpty_append.2 ⟨nonEmpty_carved hle, (nonEmpty_cons.1 hne).2⟩
    · obtain ⟨⟨run', rest'⟩, hfit, heq⟩ := Option.map_eq_some_iff.1 h
      obtain ⟨rfl, rfl⟩ := Prod.mk.inj heq
      obtain ⟨hlen, hpages, hne⟩ := firstFit_spec hfit
      refine ⟨hlen, by simp; omega, fun h => ?_⟩
      obtain ⟨hr, hrest⟩ := nonEmpty_cons.1 h
      exact nonEmpty_cons.2 ⟨hr, hne hrest⟩

/-- Runs that are not empty hold a page each, so the pass does not run into its limit. -/
theorem scatterFits_iff : ∀ {free : List Run} {need count : Nat}, NonEmpty free →
    need + count ≤ SlotData.maxSegs → (scatterFits free need count = true ↔ need ≤ pagesIn free)
  | [], need, count, _, _ => by simp [scatterFits]
  | r :: rest, need, count, hne, hmax => by
    obtain ⟨hr, hrest⟩ := nonEmpty_cons.1 hne
    rw [scatterFits]
    split
    · rename_i hzero
      simp [hzero]
    · rw [if_neg (by omega), scatterFits_iff hrest (by omega)]
      simp
      omega

theorem scatter_spec : ∀ {free : List Run} {need : Nat}, NonEmpty free → need ≤ pagesIn free →
    pagesIn (scatter free need).1 = need ∧
      pagesIn (scatter free need).2 + need = pagesIn free ∧
      NonEmpty (scatter free need).1 ∧ NonEmpty (scatter free need).2
  | [], need, hne, h => by
    obtain rfl : need = 0 := by simpa using h
    exact ⟨rfl, rfl, hne, hne⟩
  | r :: rest, need, hne, h => by
    obtain ⟨hr, hrest⟩ := nonEmpty_cons.1 hne
    rw [pagesIn_cons] at h
    rw [scatter]
    split
    · rename_i hzero
      subst hzero
      exact ⟨rfl, rfl, fun _ hmem => (List.not_mem_nil hmem).elim, hne⟩
    · split
      · rename_i hpos hle
        have hcarved := pagesIn_carved hle
        refine ⟨by simp, by simp; omega, ?_, ?_⟩
        · exact nonEmpty_cons.2 ⟨by show 0 < need; omega, fun _ hmem => (List.not_mem_nil hmem).elim⟩
        · exact nonEmpty_append.2 ⟨nonEmpty_carved hle, hrest⟩
      · have hless : need - r.len ≤ pagesIn rest := by omega
        obtain ⟨htaken, hleft, hsegs, hfree⟩ := scatter_spec hrest hless
        exact ⟨by simp [htaken]; omega, by simp; omega, nonEmpty_cons.2 ⟨hr, hsegs⟩, hfree⟩

theorem scatter_length_le : ∀ {free : List Run} {need count : Nat},
    scatterFits free need count = true → count ≤ SlotData.maxSegs →
      (scatter free need).1.length + count ≤ SlotData.maxSegs
  | [], _, count, _, hcount => by simpa [scatter] using hcount
  | r :: rest, need, count, h, hcount => by
    rw [scatterFits] at h
    rw [scatter]
    split
    · simpa using hcount
    · rename_i hpos
      rw [if_neg hpos] at h
      split at h
      · cases h
      split
      · simp
        omega
      · have := scatter_length_le h (by omega)
        simp
        omega

/-! ## Coalescing -/

theorem mergeNext_spec {after : List Run} (hrun : 0 < run.len) (hafter : NonEmpty after) :
    (mergeNext run after).1.len + pagesIn (mergeNext run after).2 = run.len + pagesIn after ∧
      0 < (mergeNext run after).1.len ∧ NonEmpty (mergeNext run after).2 := by
  cases after with
  | nil => exact ⟨rfl, hrun, hafter⟩
  | cons next rest =>
    obtain ⟨hnext, hrest⟩ := nonEmpty_cons.1 hafter
    rw [mergeNext]
    split
    · refine ⟨?_, ?_, hrest⟩
      · show run.len + next.len + pagesIn rest = run.len + pagesIn (next :: rest)
        rw [pagesIn_cons]
        omega
      · show 0 < run.len + next.len
        omega
    · exact ⟨rfl, hrun, hafter⟩

theorem mergePrev_spec {before : List Run} (hbefore : NonEmpty before) (hrun : 0 < run.len) :
    pagesIn (mergePrev before run) = pagesIn before + run.len ∧ NonEmpty (mergePrev before run) := by
  have hsingle : ∀ {r : Run}, 0 < r.len → NonEmpty [r] := by
    intro r hr
    exact nonEmpty_cons.2 ⟨hr, fun _ hmem => (List.not_mem_nil hmem).elim⟩
  unfold mergePrev
  cases hlast : before.getLast? with
  | none =>
    obtain rfl := List.getLast?_eq_none_iff.1 hlast
    exact ⟨by simp, hsingle hrun⟩
  | some prev =>
    obtain ⟨init, rfl⟩ := List.getLast?_eq_some_iff.1 hlast
    obtain ⟨hinit, -⟩ := nonEmpty_append.1 hbefore
    dsimp only
    split
    · refine ⟨by simp; omega, nonEmpty_append.2 ⟨by simpa using hinit, hsingle ?_⟩⟩
      show 0 < prev.len + run.len
      omega
    · exact ⟨by simp; omega, nonEmpty_append.2 ⟨hbefore, hsingle hrun⟩⟩

theorem insertRun_spec {free : List Run} (hfree : NonEmpty free) (hrun : 0 < run.len) :
    NonEmpty (insertRun free run) ∧ pagesIn (insertRun free run) = pagesIn free + run.len := by
  have hsplit : pagesIn (free.takeWhile (·.start < run.start))
      + pagesIn (free.dropWhile (·.start < run.start)) = pagesIn free := by
    rw [← pagesIn_append, List.takeWhile_append_dropWhile]
  have hbefore : NonEmpty (free.takeWhile (·.start < run.start)) :=
    fun r hr => hfree r ((List.takeWhile_sublist _).subset hr)
  have hafter : NonEmpty (free.dropWhile (·.start < run.start)) :=
    fun r hr => hfree r ((List.dropWhile_sublist _).subset hr)
  obtain ⟨hnext, hpos, hrest⟩ := mergeNext_spec hrun hafter
  obtain ⟨hprev, hne⟩ := mergePrev_spec hbefore hpos
  refine ⟨nonEmpty_append.2 ⟨hne, hrest⟩, ?_⟩
  show pagesIn (_ ++ _) = _
  rw [pagesIn_append, hprev]
  omega

theorem foldl_insertRun : ∀ {free : List Run}, NonEmpty free → NonEmpty segs →
    NonEmpty (segs.foldl insertRun free) ∧
      pagesIn (segs.foldl insertRun free) = pagesIn free + pagesIn segs := by
  induction segs with
  | nil =>
    intro free hfree _
    exact ⟨hfree, rfl⟩
  | cons r segs ih =>
    intro free hfree hsegs
    obtain ⟨hr, hsegs⟩ := nonEmpty_cons.1 hsegs
    obtain ⟨hins, hcount⟩ := insertRun_spec hfree hr
    obtain ⟨hne, hpages⟩ := ih hins hsegs
    refine ⟨hne, hpages.trans ?_⟩
    rw [hcount, pagesIn_cons]
    omega

/-! ## The operations -/

namespace BufPool

variable {W : Type} {p p' : BufPool W}

structure Wf (p : BufPool W) : Prop where
  counted : p.freePages = pagesIn p.free
  nonEmpty : NonEmpty p.free

theorem new_spec {bytes : Nat} (h : new bytes = some p) :
    p.Wf ∧ p.npages = pagesOf bytes ∧ p.freePages = pagesOf bytes ∧ p.waiters = [] ∧
      p.sendArena = none := by
  unfold new at h
  dsimp only at h
  split at h
  · obtain rfl := Option.some.inj h
    refine ⟨⟨by simp, fun r hr => ?_⟩, rfl, rfl, rfl, rfl⟩
    obtain rfl := List.mem_singleton.1 hr
    exact pagesOf_pos bytes
  · cases h

structure Taken (pages : Nat) (p p' : BufPool W) : Prop where
  wf : p'.Wf
  npages : p'.npages = p.npages
  freePages : p'.freePages + pages = p.freePages
  waiters : p'.waiters = p.waiters

theorem reserveArena_spec {bytes : Nat} (hwf : p.Wf)
    (h : p.reserveArena bytes = some p') :
    Taken (pagesOf bytes) p p' ∧ p'.arenaPages = pagesOf bytes := by
  unfold reserveArena at h
  split at h
  · cases h
  · split at h
    · cases h
    · rename_i region free hfit
      obtain rfl := Option.some.inj h
      obtain ⟨hlen, hpages, hne⟩ := firstFit_spec hfit
      have hcount := hwf.counted
      refine ⟨⟨⟨?_, hne hwf.nonEmpty⟩, rfl, ?_, rfl⟩, hlen⟩
      · show p.freePages - pagesOf bytes = pagesIn free
        omega
      · show p.freePages - pagesOf bytes + pagesOf bytes = p.freePages
        omega

/-- A lease has exactly the pages asked for, and the pool no longer has them. -/
theorem alloc_spec (hwf : p.Wf) (h : p.alloc len = some (segs, p')) :
    Taken (pagesOf len) p p' ∧ p'.sendArena = p.sendArena ∧ pagesIn segs = pagesOf len ∧
      NonEmpty segs := by
  have hcount := hwf.counted
  unfold alloc at h
  dsimp only at h
  split at h
  · cases h
  split at h
  · cases h
  rename_i hfree
  split at h
  · rename_i run free hfit
    obtain ⟨rfl, rfl⟩ := Prod.mk.inj (Option.some.inj h)
    obtain ⟨hlen, hpages, hne⟩ := firstFit_spec hfit
    refine ⟨⟨⟨?_, hne hwf.nonEmpty⟩, rfl, ?_, rfl⟩, rfl, by simp [hlen], fun r hr => ?_⟩
    · show p.freePages - pagesOf len = pagesIn free
      omega
    · show p.freePages - pagesOf len + pagesOf len = p.freePages
      omega
    · obtain rfl := List.mem_singleton.1 hr
      exact hlen ▸ pagesOf_pos len
  · split at h
    · obtain ⟨rfl, rfl⟩ := Prod.mk.inj (Option.some.inj h)
      have henough : pagesOf len ≤ pagesIn p.free := by omega
      obtain ⟨htaken, hleft, hsegs, hne⟩ := scatter_spec hwf.nonEmpty henough
      refine ⟨⟨⟨?_, hne⟩, rfl, ?_, rfl⟩, rfl, htaken, hsegs⟩
      · show p.freePages - pagesOf len = pagesIn (scatter p.free (pagesOf len)).2
        omega
      · show p.freePages - pagesOf len + pagesOf len = p.freePages
        omega
    · cases h

theorem alloc_length_le (h : p.alloc len = some (segs, p')) : segs.length ≤ SlotData.maxSegs := by
  unfold alloc at h
  dsimp only at h
  split at h
  · cases h
  split at h
  · cases h
  split at h
  · obtain ⟨rfl, -⟩ := Prod.mk.inj (Option.some.inj h)
    simp [SlotData.maxSegs]
  split at h
  · rename_i hfits
    obtain ⟨rfl, -⟩ := Prod.mk.inj (Option.some.inj h)
    exact scatter_length_le hfits (Nat.zero_le _)
  · cases h

/-- **What the pool hands out is a lease of the length asked for**, whatever its pages hold. -/
theorem alloc_leaseOk (hwf : p.Wf) (h : p.alloc len = some (segs, p')) (arena : Nat → UInt8) :
    SlotData.LeaseOk len (segs.map (Run.bytes arena)) := by
  obtain ⟨-, -, hpages, -⟩ := alloc_spec hwf h
  refine ⟨by simpa using alloc_length_le h, ?_⟩
  rw [length_flatten_bytes, hpages]
  exact le_pagesOf len

/-- **A request of at most `MAX_SEGS` pages is refused only for lack of pages**, however fragmented the
pool is. -/
theorem alloc_eq_none_iff (hwf : p.Wf) (hmax : pagesOf len ≤ SlotData.maxSegs) :
    p.alloc len = none ↔ p.freePages < pagesOf len := by
  have hsmall : SlotData.maxSegs < 2 ^ 32 := by decide
  unfold alloc
  dsimp only
  rw [if_neg (by omega)]
  split
  · rename_i h
    exact iff_of_true rfl h
  · rename_i h
    refine iff_of_false ?_ h
    split
    · exact Option.some_ne_none _
    · have hfits : scatterFits p.free (pagesOf len) 0 = true := by
        rw [scatterFits_iff hwf.nonEmpty (by omega), ← hwf.counted]
        omega
      rw [if_pos hfits]
      exact Option.some_ne_none _

theorem freeSegs_wf (hwf : p.Wf) (hsegs : NonEmpty segs) : (p.freeSegs segs).2.Wf := by
  obtain ⟨hne, hpages⟩ := foldl_insertRun hwf.nonEmpty hsegs
  refine ⟨?_, hne⟩
  show p.freePages + pagesIn segs = pagesIn (segs.foldl insertRun p.free)
  rw [hpages, hwf.counted]

theorem dropLease_wf (hwf : p.Wf) (hsegs : NonEmpty segs) : (p.dropLease segs).Wf := by
  unfold dropLease
  split
  · exact hwf
  · exact freeSegs_wf hwf hsegs

@[simp] theorem dropLease_npages (segs : List Run) : (p.dropLease segs).npages = p.npages := by
  unfold dropLease
  split <;> rfl

@[simp] theorem dropLease_arenaPages (segs : List Run) :
    (p.dropLease segs).arenaPages = p.arenaPages := by
  unfold dropLease
  split <;> rfl

@[simp] theorem dropLease_freePages (segs : List Run) :
    (p.dropLease segs).freePages = p.freePages + pagesIn segs := by
  unfold dropLease
  split
  · rename_i h
    simp [h]
  · rfl

theorem dropLease_waiters : (p.dropLease segs).waiters = if segs = [] then p.waiters else [] := by
  unfold dropLease
  split <;> rfl

end BufPool

end Ioutgt.Core
