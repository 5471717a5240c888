import Mathlib.Data.List.TakeWhile
import Ioutgt.Core.PoolTasks
import Ioutgt.Core.Proof.Pool

/-!
# The pool's pages

How many runs a page lies in is additive over lists of runs, so carving and merging are accounted for
page by page. The free list stays sorted with a gap between neighbours: a run that shares no page with
it is put between the runs that start before it and those that start behind it.

* `firstFit_pages`, `scatter_pages`: what is carved out and what is left cover the same pages.
* `insertRun_pages`, `insertRun_apart`: coalescing keeps the pages and the gaps.
* `PoolTasks.Inv`: the partition of the pages, and the sleeping tasks are parked in the pool.
-/

namespace Ioutgt.Core

open Lib

variable {r run : Run} {pages len bytes : Nat} {segs : List Run} {pool : BufPool Nat}

/-! ## Pages -/

@[simp] theorem covers_nil (page : Nat) : covers [] page = 0 := rfl

theorem covers_cons (r : Run) (runs : List Run) (page : Nat) :
    covers (r :: runs) page = covers [r] page + covers runs page := by
  simp only [covers, List.countP_cons, List.countP_nil]
  omega

theorem covers_append (xs ys : List Run) (page : Nat) :
    covers (xs ++ ys) page = covers xs page + covers ys page :=
  List.countP_append

theorem covers_singleton (r : Run) (page : Nat) :
    covers [r] page = if r.Holds page then 1 else 0 := by
  simp [covers, List.countP_cons]

theorem covers_pos {runs : List Run} (hr : r ∈ runs) {page : Nat} (h : r.Holds page) :
    1 ≤ covers runs page :=
  List.countP_pos_iff.mpr ⟨r, hr, by simpa using h⟩

theorem covers_join {start m n : Nat} (page : Nat) :
    covers [⟨start, m + n⟩] page = covers [⟨start, m⟩] page + covers [⟨start + m, n⟩] page := by
  simp only [covers_singleton]
  split <;> split <;> split <;> simp only [Run.Holds] at * <;> omega

theorem pairwise_disjoint_of_covers {runs : List Run} (h : ∀ page, covers runs page ≤ 1) :
    runs.Pairwise Run.Disjoint := by
  induction runs with
  | nil => exact .nil
  | cons r rest ih =>
    refine .cons (fun b hb page hboth => ?_) (ih fun page => ?_)
    · have hone := h page
      rw [covers_cons, covers_singleton, if_pos hboth.1] at hone
      have := covers_pos hb hboth.2
      omega
    · have hone := h page
      rw [covers_cons] at hone
      omega

/-! ## Carving -/

theorem carved_pages (h : pages ≤ r.len) (page : Nat) :
    covers [⟨r.start, pages⟩] page + covers (r.carved pages) page = covers [r] page := by
  obtain ⟨start, len⟩ := r
  obtain ⟨rest, rfl⟩ := Nat.exists_eq_add_of_le h
  unfold Run.carved
  split
  · rename_i heq
    obtain rfl : rest = 0 := by simpa using heq
    simp
  · rw [covers_join]
    simp

theorem carved_apart (h : pages ≤ r.len) {rest : List Run} (hr : (r :: rest).Pairwise Run.Apart) :
    (r.carved pages ++ rest).Pairwise Run.Apart := by
  obtain ⟨hfirst, hrest⟩ := List.pairwise_cons.mp hr
  unfold Run.carved
  split
  · exact hrest
  · refine .cons (fun b hb => ?_) hrest
    have := hfirst b hb
    simp only [Run.Apart] at this ⊢
    omega

theorem carved_starts {x : Run} (hx : x ∈ r.carved pages) : r.start ≤ x.start := by
  unfold Run.carved at hx
  split at hx
  · cases hx
  · obtain rfl := List.mem_singleton.mp hx
    exact Nat.le_add_right _ _

theorem firstFit_pages {pages : Nat} : ∀ {free : List Run} {run : Run} {rest : List Run},
    firstFit pages free = some (run, rest) →
      (∀ page, covers [run] page + covers rest page = covers free page) ∧
      (∀ x ∈ rest, ∃ r ∈ free, r.start ≤ x.start) ∧
      (free.Pairwise Run.Apart → rest.Pairwise Run.Apart)
  | [], _, _, h => by cases h
  | r :: free, run, rest, h => by
    rw [firstFit] at h
    split at h
    · rename_i hle
      obtain ⟨rfl, rfl⟩ := Prod.mk.inj (Option.some.inj h)
      refine ⟨fun page => ?_, fun x hx => ?_, carved_apart hle⟩
      · rw [covers_append, covers_cons r, ← carved_pages hle]
        omega
      · rcases List.mem_append.mp hx with hx | hx
        · exact ⟨r, List.mem_cons_self, carved_starts hx⟩
        · exact ⟨x, List.mem_cons_of_mem _ hx, Nat.le_refl _⟩
    · obtain ⟨⟨run', rest'⟩, hrec, heq⟩ := Option.map_eq_some_iff.mp h
      obtain ⟨rfl, rfl⟩ := Prod.mk.inj heq
      obtain ⟨hpages, hstarts, hapart⟩ := firstFit_pages hrec
      refine ⟨fun page => ?_, fun x hx => ?_, fun hfree => ?_⟩
      · rw [covers_cons r, covers_cons r free, ← hpages page]
        dsimp only
        omega
      · rcases List.mem_cons.mp hx with rfl | hx
        · exact ⟨x, List.mem_cons_self, Nat.le_refl _⟩
        · obtain ⟨y, hy, hle⟩ := hstarts x hx
          exact ⟨y, List.mem_cons_of_mem _ hy, hle⟩
      · obtain ⟨hfirst, hrest⟩ := List.pairwise_cons.mp hfree
        refine .cons (fun b hb => ?_) (hapart hrest)
        obtain ⟨y, hy, hle⟩ := hstarts b hb
        exact Nat.lt_of_lt_of_le (hfirst y hy) hle

theorem firstFit_isSome {pages : Nat} : ∀ {free : List Run},
    (firstFit pages free).isSome = true ↔ ∃ r ∈ free, pages ≤ r.len
  | [] => by simp [firstFit]
  | r :: free => by
    rw [firstFit]
    split
    · rename_i hle
      simp [hle]
    · rename_i hgt
      rw [Option.isSome_map, firstFit_isSome]
      simp [hgt]

theorem scatter_pages : ∀ {free : List Run} {need : Nat},
    (∀ page, covers (scatter free need).1 page + covers (scatter free need).2 page
      = covers free page) ∧
    (free.Pairwise Run.Apart → (scatter free need).2.Pairwise Run.Apart)
  | [], _ => ⟨fun _ => rfl, id⟩
  | r :: rest, need => by
    rw [scatter]
    split
    · exact ⟨fun page => by simp, id⟩
    · split
      · rename_i hle
        refine ⟨fun page => ?_, carved_apart hle⟩
        dsimp only
        rw [covers_append, covers_cons r, ← carved_pages hle]
        omega
      · obtain ⟨hpages, hapart⟩ := @scatter_pages rest (need - r.len)
        refine ⟨fun page => ?_, fun hfree => hapart (List.pairwise_cons.mp hfree).2⟩
        dsimp only
        rw [covers_cons r, covers_cons r rest, ← hpages page]
        omega

/-! ## Coalescing -/

theorem mergeNext_pages (run : Run) (after : List Run) (page : Nat) :
    covers [(mergeNext run after).1] page + covers (mergeNext run after).2 page
      = covers [run] page + covers after page := by
  cases after with
  | nil => rfl
  | cons next rest =>
    rw [mergeNext]
    split
    · rename_i heq
      dsimp only
      rw [covers_join, covers_cons next, heq]
      exact Nat.add_assoc _ _ _
    · rfl

theorem mergePrev_pages (before : List Run) (run : Run) (page : Nat) :
    covers (mergePrev before run) page = covers before page + covers [run] page := by
  unfold mergePrev
  cases hlast : before.getLast? with
  | none =>
    rw [List.getLast?_eq_none_iff.mp hlast]
    simp
  | some prev =>
    dsimp only
    split
    · rename_i heq
      have hbefore : before = before.dropLast ++ [prev] :=
        (List.dropLast_append_getLast? prev hlast).symm
      conv_rhs => rw [hbefore]
      rw [covers_append, covers_append, covers_join, heq]
      exact (Nat.add_assoc _ _ _).symm
    · exact covers_append _ _ _

theorem insertRun_pages (free : List Run) (run : Run) (page : Nat) :
    covers (insertRun free run) page = covers free page + covers [run] page := by
  have hsplit : covers (free.takeWhile (·.start < run.start)) page
      + covers (free.dropWhile (·.start < run.start)) page = covers free page := by
    rw [← covers_append, List.takeWhile_append_dropWhile]
  have hnext := mergeNext_pages run (free.dropWhile (·.start < run.start)) page
  unfold insertRun
  dsimp only
  rw [covers_append, mergePrev_pages]
  omega

theorem mem_takeWhile_start {free : List Run} {n : Nat} (h : r ∈ free.takeWhile (·.start < n)) :
    r.start < n := by
  simpa using List.mem_takeWhile_imp h

theorem mem_dropWhile_start {n : Nat} : ∀ {free : List Run}, free.Pairwise Run.Apart →
    ∀ r ∈ free.dropWhile (·.start < n), n ≤ r.start
  | [], _, _, hr => by cases hr
  | a :: rest, hfree, r, hr => by
    obtain ⟨hfirst, hrest⟩ := List.pairwise_cons.mp hfree
    rw [List.dropWhile_cons] at hr
    split at hr
    · exact mem_dropWhile_start hrest r hr
    · rename_i hstop
      have hstop : n ≤ a.start := by simpa using hstop
      rcases List.mem_cons.mp hr with rfl | hr
      · exact hstop
      · have := hfirst r hr
        simp only [Run.Apart] at this
        omega

theorem mergeNext_apart {after : List Run} (hafter : after.Pairwise Run.Apart)
    (hends : ∀ r ∈ after, run.start + run.len ≤ r.start) :
    (mergeNext run after).1.start = run.start ∧
      ((mergeNext run after).1 :: (mergeNext run after).2).Pairwise Run.Apart := by
  cases after with
  | nil => exact ⟨rfl, List.pairwise_singleton _ _⟩
  | cons next rest =>
    obtain ⟨hfirst, hrest⟩ := List.pairwise_cons.mp hafter
    have hnext := hends next List.mem_cons_self
    rw [mergeNext]
    split
    · rename_i heq
      refine ⟨rfl, .cons (fun b hb => ?_) hrest⟩
      have := hfirst b hb
      simp only [Run.Apart] at this ⊢
      omega
    · rename_i hne
      refine ⟨rfl, .cons (fun b hb => ?_) hafter⟩
      rcases List.mem_cons.mp hb with rfl | hb
      · exact Nat.lt_of_le_of_ne hnext hne
      · have := hfirst b hb
        simp only [Run.Apart] at this ⊢
        omega

theorem mergePrev_apart {before after : List Run} (hbefore : before.Pairwise Run.Apart)
    (hends : ∀ r ∈ before, r.start + r.len ≤ run.start) (hpos : 0 < run.len)
    (hafter : (run :: after).Pairwise Run.Apart) :
    (mergePrev before run ++ after).Pairwise Run.Apart := by
  obtain ⟨hrun, hrest⟩ := List.pairwise_cons.mp hafter
  -- the runs before lie apart from those behind
  have hfar : ∀ r ∈ before, ∀ b ∈ after, r.Apart b := by
    intro r hr b hb
    have h1 := hends r hr
    have h2 := hrun b hb
    simp only [Run.Apart] at h2 ⊢
    omega
  unfold mergePrev
  cases hlast : before.getLast? with
  | none => exact hafter
  | some prev =>
    have hsplit : before = before.dropLast ++ [prev] :=
      (List.dropLast_append_getLast? prev hlast).symm
    have hprev : prev ∈ before := List.mem_of_getLast? hlast
    have hb := hbefore
    rw [hsplit] at hb
    obtain ⟨hinit, -, hcross⟩ := List.pairwise_append.mp hb
    have hcross : ∀ a ∈ before.dropLast, a.Apart prev :=
      fun a ha => hcross a ha prev (List.mem_singleton_self _)
    dsimp only
    split
    · rename_i heq
      rw [List.append_assoc]
      refine List.pairwise_append.mpr ⟨hinit, .cons (fun b hb => ?_) hrest, fun a ha b hb => ?_⟩
      · have := hrun b hb
        simp only [Run.Apart] at this ⊢
        omega
      · rcases List.mem_cons.mp hb with rfl | hb
        · exact hcross a ha
        · exact hfar a (List.dropLast_subset _ ha) b hb
    · rename_i hne
      rw [List.append_assoc]
      refine List.pairwise_append.mpr ⟨hbefore, hafter, fun a ha b hb => ?_⟩
      rcases List.mem_cons.mp hb with rfl | hb
      · rw [hsplit] at ha
        rcases List.mem_append.mp ha with ha | ha
        · have h1 := hcross a ha
          have h2 := hends prev hprev
          simp only [Run.Apart] at h1 ⊢
          omega
        · obtain rfl := List.mem_singleton.mp ha
          exact Nat.lt_of_le_of_ne (hends a hprev) hne
      · exact hfar a ha b hb

theorem insertRun_apart {free : List Run} (hfree : free.Pairwise Run.Apart) (hne : NonEmpty free)
    (hpos : 0 < run.len) (hdisjoint : ∀ r ∈ free, r.Disjoint run) :
    (insertRun free run).Pairwise Run.Apart := by
  have hbefore : ∀ r ∈ free.takeWhile (·.start < run.start), r.start + r.len ≤ run.start := by
    intro r hr
    have hstart := mem_takeWhile_start hr
    have hmem := (List.takeWhile_sublist _).subset hr
    by_contra hlt
    exact hdisjoint r hmem run.start ⟨⟨by omega, by omega⟩, Nat.le_refl _, by omega⟩
  have hafter : ∀ r ∈ free.dropWhile (·.start < run.start), run.start + run.len ≤ r.start := by
    intro r hr
    have hstart := mem_dropWhile_start hfree r hr
    have hmem := (List.dropWhile_sublist _).subset hr
    have hlen := hne r hmem
    by_contra hlt
    exact hdisjoint r hmem r.start ⟨⟨Nat.le_refl _, by omega⟩, hstart, by omega⟩
  obtain ⟨hstart, hmerged⟩ := mergeNext_apart (hfree.sublist (List.dropWhile_sublist _)) hafter
  obtain ⟨-, hlen, -⟩ := mergeNext_spec hpos
    (fun r hr => hne r ((List.dropWhile_sublist (·.start < run.start)).subset hr))
  refine mergePrev_apart (hfree.sublist (List.takeWhile_sublist _)) (fun r hr => ?_) hlen hmerged
  rw [hstart]
  exact hbefore r hr

/-- Runs that share no page with the free list nor with each other go back one by one. -/
theorem foldl_insertRun_apart : ∀ {free : List Run}, free.Pairwise Run.Apart →
    NonEmpty free → NonEmpty segs → (∀ page, covers free page + covers segs page ≤ 1) →
    (segs.foldl insertRun free).Pairwise Run.Apart ∧
      ∀ page, covers (segs.foldl insertRun free) page = covers free page + covers segs page := by
  induction segs with
  | nil =>
    intro free hfree _ _ _
    exact ⟨hfree, fun _ => rfl⟩
  | cons run segs ih =>
    intro free hfree hne hsegs hone
    obtain ⟨hpos, hsegs⟩ := nonEmpty_cons.1 hsegs
    have hdisjoint : ∀ r ∈ free, r.Disjoint run := by
      intro r hr page hboth
      have h1 := hone page
      have h2 := covers_pos hr hboth.1
      rw [covers_cons, covers_singleton, if_pos hboth.2] at h1
      omega
    have hpages : ∀ page, covers (insertRun free run) page + covers segs page
        = covers free page + covers (run :: segs) page := by
      intro page
      rw [insertRun_pages, covers_cons run segs]
      omega
    obtain ⟨hnext, -⟩ := insertRun_spec hne hpos
    obtain ⟨h1, h2⟩ := ih (insertRun_apart hfree hne hpos hdisjoint) hnext hsegs
      (fun page => (hpages page).symm ▸ hone page)
    exact ⟨h1, fun page => (h2 page).trans (hpages page)⟩

/-! ## The pool's operations -/

namespace BufPool

variable {W : Type} {p p' : BufPool W}

theorem alloc_pages (h : p.alloc len = some (segs, p')) :
    (∀ page, covers segs page + covers p'.free page = covers p.free page) ∧
      (p.free.Pairwise Run.Apart → p'.free.Pairwise Run.Apart) ∧
      ((∃ r ∈ p.free, pagesOf len ≤ r.len) → segs.length = 1) := by
  unfold alloc at h
  dsimp only at h
  split at h
  · cases h
  · split at h
    · cases h
    · split at h
      · rename_i run free hfit
        obtain ⟨rfl, rfl⟩ := Prod.mk.inj (Option.some.inj h)
        obtain ⟨hpages, -, hapart⟩ := firstFit_pages hfit
        exact ⟨hpages, hapart, fun _ => rfl⟩
      · rename_i hfit
        split at h
        · obtain ⟨rfl, rfl⟩ := Prod.mk.inj (Option.some.inj h)
          obtain ⟨hpages, hapart⟩ := @scatter_pages p.free (pagesOf len)
          refine ⟨hpages, hapart, fun hlarge => ?_⟩
          have hsome := firstFit_isSome.mpr hlarge
          rw [hfit] at hsome
          cases hsome
        · cases h

theorem reserveArena_pages (h : p.reserveArena bytes = some p') :
    (∀ page, covers p'.sendArena.toList page + covers p'.free page = covers p.free page) ∧
      (p.free.Pairwise Run.Apart → p'.free.Pairwise Run.Apart) := by
  unfold reserveArena at h
  split at h
  · cases h
  · split at h
    · cases h
    · rename_i region free hfit
      obtain rfl := Option.some.inj h
      obtain ⟨hpages, -, hapart⟩ := firstFit_pages hfit
      exact ⟨hpages, hapart⟩

end BufPool

/-! ## Runs -/

namespace PoolTasks

variable {s s' : PoolTasks} {a : PoolAction}

/-- Free runs, leases and reserved regions make up the pool; whoever sleeps is parked there. -/
structure Inv (s : PoolTasks) : Prop where
  wf : s.pool.Wf
  apart : s.pool.free.Pairwise Run.Apart
  leases : ∀ segs ∈ s.leases, NonEmpty segs
  parts : ∀ page, covers s.runs page = if page < s.pool.npages then 1 else 0
  parked : ∀ task ∈ s.asleep, task ∈ s.pool.waiters

theorem inv_start (h : BufPool.new bytes = some pool) : Inv (start pool) := by
  obtain ⟨hwf, -⟩ := BufPool.new_spec h
  unfold BufPool.new at h
  dsimp only at h
  obtain ⟨-, rfl⟩ := of_guard h
  refine ⟨hwf, List.pairwise_singleton _ _, nofun, fun page => ?_, nofun⟩
  simp only [runs, start, List.flatten_nil, List.append_nil, covers_singleton]
  exact if_congr (by simp [Run.Holds]) rfl rfl

theorem runs_covers (s : PoolTasks) (page : Nat) : covers s.runs page =
    covers s.pool.free page + covers s.leases.flatten page + covers s.reserved page := by
  rw [runs, covers_append, covers_append]

theorem Inv.lease (h : Inv s) (halloc : s.pool.alloc len = some (segs, pool)) {asleep : List Nat}
    (hasleep : ∀ task ∈ asleep, task ∈ s.asleep) :
    Inv { s with pool, leases := s.leases ++ [segs], asleep } := by
  obtain ⟨htaken, -, -, hne⟩ := BufPool.alloc_spec h.wf halloc
  obtain ⟨hpages, hapart, -⟩ := BufPool.alloc_pages halloc
  refine ⟨htaken.wf, hapart h.apart, fun l hl => ?_, fun page => ?_, fun task ht => ?_⟩
  · rcases List.mem_append.mp hl with hl | hl
    · exact h.leases l hl
    · obtain rfl := List.mem_singleton.mp hl
      exact hne
  · have hold := h.parts page
    rw [runs_covers] at hold ⊢
    rw [htaken.npages, ← hold, ← hpages page]
    simp only [List.flatten_append, List.flatten_singleton, covers_append]
    omega
  · rw [htaken.waiters]
    exact h.parked task (hasleep task ht)

theorem covers_eraseIdx {leases : List (List Run)} {i : Nat} (hi : leases[i]? = some segs)
    (page : Nat) :
    covers segs page + covers (leases.eraseIdx i).flatten page = covers leases.flatten page := by
  induction leases generalizing i with
  | nil => cases hi
  | cons l rest ih =>
    cases i with
    | zero =>
      cases hi
      simp [covers_append]
    | succ i =>
      have := ih hi
      simp only [List.eraseIdx_cons_succ, List.flatten_cons, covers_append]
      omega

theorem Inv.drop (h : Inv s) {i : Nat} (hi : s.leases[i]? = some segs) (asleep : List Nat)
    (hasleep : asleep = []) :
    Inv { s with pool := (s.pool.freeSegs segs).2, leases := s.leases.eraseIdx i, asleep } := by
  have hmem := List.mem_of_getElem? hi
  have hne := h.leases segs hmem
  have hone : ∀ page, covers s.pool.free page + covers segs page ≤ 1 := by
    intro page
    have hold := h.parts page
    rw [runs_covers, ← covers_eraseIdx hi] at hold
    split at hold <;> omega
  obtain ⟨hapart, hpages⟩ := foldl_insertRun_apart h.apart h.wf.nonEmpty hne hone
  refine ⟨BufPool.freeSegs_wf h.wf hne, hapart, fun l hl => ?_, fun page => ?_, ?_⟩
  · exact h.leases l (List.mem_of_mem_eraseIdx hl)
  · have hold := h.parts page
    rw [runs_covers, ← covers_eraseIdx hi] at hold
    refine Eq.trans ?_ hold
    rw [runs_covers]
    show covers (segs.foldl insertRun s.pool.free) page + _ + _ = _
    rw [hpages]
    dsimp only
    omega
  · rw [hasleep]
    nofun

theorem Inv.nobody_asleep (h : Inv s) : s.asleep.filter (· ∉ s.pool.waiters) = [] := by
  refine List.filter_eq_nil_iff.mpr fun task ht => ?_
  simpa using h.parked task ht

theorem Inv.step (h : Inv s) (hstep : s.step a = some s') : Inv s' := by
  cases a with
  | alloc len =>
    simp only [PoolTasks.step] at hstep
    split at hstep
    · rename_i segs pool halloc
      obtain rfl := Option.some.inj hstep
      exact h.lease halloc fun _ ht => ht
    · obtain rfl := Option.some.inj hstep
      exact h
  | poll task len =>
    simp only [PoolTasks.step, BufPool.allocAwait] at hstep
    cases halloc : s.pool.alloc len with
    | some x =>
      obtain ⟨segs, pool⟩ := x
      rw [halloc] at hstep
      obtain rfl := Option.some.inj hstep
      exact h.lease halloc fun _ ht => List.mem_of_mem_filter ht
    | none =>
      rw [halloc] at hstep
      obtain rfl := Option.some.inj hstep
      refine ⟨⟨h.wf.counted, h.wf.nonEmpty⟩, h.apart, h.leases, h.parts, fun t ht => ?_⟩
      rcases List.mem_append.mp ht with ht | ht
      · exact List.mem_append_left _ (h.parked t (List.mem_of_mem_filter ht))
      · exact List.mem_append_right _ ht
  | drop i =>
    simp only [PoolTasks.step] at hstep
    split at hstep
    · rename_i segs hi
      obtain rfl := Option.some.inj hstep
      exact h.drop hi _ h.nobody_asleep
    · cases hstep
  | reserve bytes =>
    simp only [PoolTasks.step] at hstep
    split at hstep
    · rename_i pool hreserve
      obtain rfl := Option.some.inj hstep
      obtain ⟨htaken, -⟩ := BufPool.reserveArena_spec h.wf hreserve
      obtain ⟨hpages, hapart⟩ := BufPool.reserveArena_pages hreserve
      refine ⟨htaken.wf, hapart h.apart, h.leases, fun page => ?_, fun t ht => ?_⟩
      · have hold := h.parts page
        rw [runs_covers] at hold ⊢
        rw [htaken.npages, ← hold, ← hpages page]
        simp only [covers_append]
        omega
      · rw [htaken.waiters]
        exact h.parked t ht
    · obtain rfl := Option.some.inj hstep
      exact h
  | setBufIndex idx =>
    obtain rfl := Option.some.inj hstep
    exact ⟨⟨h.wf.counted, h.wf.nonEmpty⟩, h.apart, h.leases, h.parts, h.parked⟩
  | takeBufIndex =>
    obtain rfl := Option.some.inj hstep
    exact ⟨⟨h.wf.counted, h.wf.nonEmpty⟩, h.apart, h.leases, h.parts, h.parked⟩

theorem inv_run (hnew : BufPool.new bytes = some pool) (as : List PoolAction)
    (hrun : runFrom PoolTasks.step (start pool) as = some s) : Inv s :=
  @runFrom_invariant _ _ PoolTasks.step Inv (fun h hstep => h.step hstep) as _ _
    (inv_start hnew) hrun

/-- A refused request leaves the pool as it was, but for the waker of a task that waits. -/
theorem step_refused (h : s.pool.alloc len = none) :
    s.step (.alloc len) = some s ∧
      ∀ task, s.step (.poll task len) = some { s with
        pool := { s.pool with waiters := s.pool.waiters ++ [task] }
        asleep := s.asleep.filter (· != task) ++ [task] } := by
  simp only [PoolTasks.step, BufPool.allocAwait, h, implies_true, and_self]

end PoolTasks

/-- **The pool's pages, over every sequence of allocations, lease drops and reservations**: the free
runs are non-empty, sorted and separated by gaps; every page lies in exactly one free run, live lease
or reserved region; the counter counts the free pages. A request of at most `MAX_SEGS` pages succeeds
exactly when so many are free; a lease is of runs that share no page, together of the size asked for,
and a single one whenever some free run is large enough. A refused request changes nothing. A return
of pages leaves no task asleep. -/
theorem pool_pages_partitioned (bytes : Nat) (pool : BufPool Nat)
    (hnew : BufPool.new bytes = some pool) (as : List PoolAction) (s : PoolTasks)
    (hrun : runFrom PoolTasks.step (PoolTasks.start pool) as = some s) :
    NonEmpty s.pool.free ∧ s.pool.free.Pairwise Run.Apart ∧
    (∀ page, covers (s.pool.free ++ s.leases.flatten ++ s.reserved) page
      = if page < s.pool.npages then 1 else 0) ∧
    s.pool.freePages = pagesIn s.pool.free ∧
    (∀ len, pagesOf len ≤ SlotData.maxSegs →
      ((s.pool.alloc len).isSome = true ↔ pagesOf len ≤ s.pool.freePages)) ∧
    (∀ len segs pool', s.pool.alloc len = some (segs, pool') →
      segs.Pairwise Run.Disjoint ∧ pagesIn segs = pagesOf len ∧
      (∀ page, covers segs page + covers pool'.free page = covers s.pool.free page) ∧
      ((∃ r ∈ s.pool.free, pagesOf len ≤ r.len) → segs.length = 1)) ∧
    (∀ len, s.pool.alloc len = none →
      s.step (.alloc len) = some s ∧
      ∀ task, s.step (.poll task len) = some { s with
        pool := { s.pool with waiters := s.pool.waiters ++ [task] }
        asleep := s.asleep.filter (· != task) ++ [task] }) ∧
    (∀ bytes', s.pool.reserveArena bytes' = none → s.step (.reserve bytes') = some s) ∧
    ∀ i s', s.step (.drop i) = some s' → s'.asleep = [] := by
  have h := PoolTasks.inv_run hnew as hrun
  refine ⟨h.wf.nonEmpty, h.apart, h.parts, h.wf.counted, fun len hmax => ?_,
    fun len segs pool' halloc => ?_, fun len hnone => PoolTasks.step_refused hnone,
    fun bytes' hnone => ?_, fun i s' hdrop => ?_⟩
  · have hnone := BufPool.alloc_eq_none_iff h.wf hmax
    rw [← Option.ne_none_iff_isSome, Ne, hnone, Nat.not_lt]
  · obtain ⟨-, -, htotal, -⟩ := BufPool.alloc_spec h.wf halloc
    obtain ⟨hpages, -, hsingle⟩ := BufPool.alloc_pages halloc
    refine ⟨pairwise_disjoint_of_covers fun page => ?_, htotal, hpages, hsingle⟩
    -- a page of the lease was in one free run
    have hone := h.parts page
    rw [PoolTasks.runs_covers, ← hpages page] at hone
    split at hone <;> omega
  · simp only [PoolTasks.step, hnone]
  · simp only [PoolTasks.step] at hdrop
    split at hdrop
    · obtain rfl := Option.some.inj hdrop
      exact h.nobody_asleep
    · cases hdrop

/-- Three leases fill a pool of four pages; two that do not touch are dropped, the second while a
task waits for three pages; those then come as two runs. -/
def scatteredReturn : List PoolAction :=
  [.alloc 4096, .alloc 4096, .alloc 8192, .drop 0, .poll 7 12288, .drop 1, .alloc 12288]

theorem pool_pages_partitioned_scattered :
    ∃ pool s, BufPool.new 16384 = some pool ∧
      runFrom PoolTasks.step (PoolTasks.start pool) scatteredReturn = some s ∧
      s.leases = [[⟨1, 1⟩], [⟨0, 1⟩, ⟨2, 2⟩]] ∧ s.pool.free = [] ∧ s.asleep = [] ∧
      ∀ page, covers (s.pool.free ++ s.leases.flatten ++ s.reserved) page
        = if page < s.pool.npages then 1 else 0 := by
  refine ⟨_, _, rfl, rfl, rfl, rfl, rfl, ?_⟩
  exact (pool_pages_partitioned 16384 _ rfl scatteredReturn _ rfl).2.2.1

end Ioutgt.Core
