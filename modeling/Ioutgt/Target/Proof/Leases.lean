import Ioutgt.Target.Leases
import Ioutgt.Core.Proof.Pool
import Ioutgt.Lib.Shares

/-!
# Who waits for pool pages

A read parked for pages and a write command in `pool_wait` wait for a lease of some other tag, in
every run of an IO queue whose pool the command line made at least one MiB large.

* `Pages`: the pool's pages are the free ones, the send arena's and the leased ones.
* `Swapped`: what installing or dropping one slot's buffer does; `tryLease_swapped`,
  `leaseOrOwned_swapped`, `setData_swapped`.
* `Inv`: pages are short for every parked read, and between two polls for the front of `pool_wait`;
  `Inv.move` for the steps that move one tag, `Inv.park`, `Inv.defer` for those that make one wait,
  `Inv.releaseAll` for the end of the send loop,
  `Inv.step` for all.
* `Inv.waitsWell`: with `Roomy`, whoever waits waits for someone else.
* `waits_for_other_lease_iff`: the pool sizes for which that holds in every run.
-/

namespace Ioutgt.Target.Leases

open Lib Ioutgt.Core

variable {p : Place} {cli : Cli}

theorem pagesOf_le_maxSegs {len : Nat} (h : len ≤ mdtsBytes) : pagesOf len ≤ SlotData.maxSegs :=
  pagesOf_le h (by decide)

theorem le_mdtsBytes_of_stageable {len : Nat} {inCapsule : Bool} (h : stageable len inCapsule = true) :
    len ≤ mdtsBytes := by
  have hpage : page ≤ mdtsBytes := by decide
  simp only [stageable, Bool.and_eq_true, decide_eq_true_eq] at h
  cases inCapsule with
  | false => exact h.2
  | true => exact Nat.le_trans h.2 hpage

/-- A tag there has no pages: it is free or, over RDMA, a read that has not been given any. -/
def Place.bare (transport : Transport) : Place → Bool
  | .free => true
  | .receiving (.read _) | .ready (.read _) | .waiting _ => transport == .rdma
  | _ => false

theorem Place.bare_tcp (h : p ≠ .free) : p.bare .tcp = false := by
  cases p with
  | free => exact absurd rfl h
  | receiving work | ready work => cases work <;> rfl
  | waiting | running | responding => rfl

theorem Place.staged_cases (inCapsule : Bool) (transport : Transport) :
    (∀ n, Place.staged inCapsule ≠ .waiting n) ∧ (Place.staged inCapsule).bare transport = false := by
  cases inCapsule <;> exact ⟨by simp [Place.staged], rfl⟩

namespace LeaseQueue

variable {q q' : LeaseQueue} {tag len room : Nat}

@[simp] theorem setPlace_self (p : Place) : (q.setPlace tag p).place tag = p :=
  Function.update_self ..

theorem setPlace_of_ne {other : Nat} (h : other ≠ tag) (p : Place) :
    (q.setPlace tag p).place other = q.place other := Function.update_of_ne h ..

@[simp] theorem setData_self (segs : List Run) : (q.setData tag segs).lease tag = segs :=
  Function.update_self ..

theorem setData_of_ne {other : Nat} (h : other ≠ tag) (segs : List Run) :
    (q.setData tag segs).lease other = q.lease other := Function.update_of_ne h ..

/-! ## Pages -/

/-- Of the pool's pages, `room` are not the send arena's; they are free or leased. -/
structure Pages (room : Nat) (q : LeaseQueue) : Prop where
  wf : q.pool.Wf
  nonEmpty : ∀ tag, NonEmpty (q.lease tag)
  small : ∀ tag, pagesIn (q.lease tag) ≤ SlotData.maxSegs
  capacity : q.pool.npages = room + q.pool.arenaPages
  accounted : room = q.pool.freePages + ∑ tag ∈ Finset.range q.sqsize, pagesIn (q.lease tag)

theorem Pages.frame (hp : Pages room q) (hpool : q'.pool = q.pool) (hlease : q'.lease = q.lease)
    (hsize : q'.sqsize = q.sqsize) : Pages room q' :=
  ⟨hpool ▸ hp.wf, hlease ▸ hp.nonEmpty, hlease ▸ hp.small, hpool ▸ hp.capacity,
    by rw [hpool, hlease, hsize]; exact hp.accounted⟩

/-- `q'` is `q` with another buffer in `tag`'s slot. -/
structure Swapped (room tag : Nat) (q q' : LeaseQueue) : Prop where
  transport : q'.transport = q.transport
  sqsize : q'.sqsize = q.sqsize
  place : q'.place = q.place
  poolWait : q'.poolWait = q.poolWait
  phase : q'.phase = q.phase
  lease : ∀ other, other ≠ tag → q'.lease other = q.lease other
  pages : Pages room q'
  parked : ∀ t ∈ q'.pool.waiters, t ∈ q.pool.waiters ∧ q'.pool.freePages ≤ q.pool.freePages
  fewer : q.lease tag = [] → q'.pool.freePages ≤ q.pool.freePages

theorem Swapped.refl (hp : Pages room q) : Swapped room tag q q where
  transport := rfl
  sqsize := rfl
  place := rfl
  poolWait := rfl
  phase := rfl
  lease := fun _ _ => rfl
  pages := hp
  parked := fun _ ht => ⟨ht, Nat.le_refl _⟩
  fewer := fun _ => Nat.le_refl _

theorem Swapped.awake (hs : Swapped room tag q q') (h : q.pool.waiters = []) : q'.pool.waiters = [] := by
  refine List.eq_nil_iff_forall_not_mem.2 fun t ht => ?_
  have hmem := (hs.parked t ht).1
  rw [h] at hmem
  cases hmem

theorem setData_swapped {pool : BufPool Nat} {segs : List Run} (hp : Pages room q) (htag : tag < q.sqsize)
    (htaken : BufPool.Taken (pagesIn segs) q.pool pool) (harena : pool.arenaPages = q.pool.arenaPages)
    (hsegs : NonEmpty segs) (hsmall : pagesIn segs ≤ SlotData.maxSegs) :
    Swapped room tag q ({ q with pool }.setData tag segs) := by
  have hfree := htaken.freePages
  generalize hq₁ : ({ q with pool } : LeaseQueue) = q₁
  have hlease : q₁.lease = q.lease := by rw [← hq₁]
  have hpool : (q₁.setData tag segs).pool = pool.dropLease (q.lease tag) := by rw [← hq₁]; rfl
  have hother : ∀ other, other ≠ tag → (q₁.setData tag segs).lease other = q.lease other :=
    fun other hne => hlease ▸ setData_of_ne hne segs
  -- an empty buffer gives nothing back
  have hnone : q.lease tag = [] → (q₁.setData tag segs).pool.freePages ≤ q.pool.freePages := by
    intro hnone
    rw [hpool, hnone, BufPool.dropLease_freePages, pagesIn_nil]
    omega
  refine
    { transport := by rw [← hq₁]; rfl, sqsize := by rw [← hq₁]; rfl, place := by rw [← hq₁]; rfl,
      poolWait := by rw [← hq₁]; rfl, phase := by rw [← hq₁]; rfl, lease := hother, pages := ?_,
      parked := ?_, fewer := hnone }
  · refine
      ⟨hpool ▸ BufPool.dropLease_wf htaken.wf (hp.nonEmpty tag), fun t => ?_, fun t => ?_, ?_, ?_⟩
    · by_cases ht : t = tag
      · rw [ht, setData_self]
        exact hsegs
      · rw [hother t ht]
        exact hp.nonEmpty t
    · by_cases ht : t = tag
      · rw [ht, setData_self]
        exact hsmall
      · rw [hother t ht]
        exact hp.small t
    · rw [hpool, BufPool.dropLease_npages, BufPool.dropLease_arenaPages, htaken.npages, harena]
      exact hp.capacity
    · -- the old buffer's pages are back, the new one's are not
      have hsum := sum_range_of_ne (f := fun t => pagesIn (q.lease t))
        (g := fun t => pagesIn ((q₁.setData tag segs).lease t)) htag
        fun t ht => congrArg pagesIn (hother t ht)
      rw [setData_self] at hsum
      have hall := hp.accounted
      have hsize : (q₁.setData tag segs).sqsize = q.sqsize := by rw [← hq₁]; rfl
      rw [hpool, BufPool.dropLease_freePages, hsize]
      omega
  · intro t ht
    rw [hpool, BufPool.dropLease_waiters] at ht
    split at ht
    · rename_i hempty
      exact ⟨htaken.waiters ▸ ht, hnone hempty⟩
    · cases ht

theorem dropData_swapped (hp : Pages room q) (htag : tag < q.sqsize) :
    Swapped room tag q (q.setData tag []) := by
  have hsame : BufPool.Taken (pagesIn []) q.pool q.pool := ⟨hp.wf, rfl, rfl, rfl⟩
  exact setData_swapped hp htag hsame rfl (fun _ h => (List.not_mem_nil h).elim) (Nat.zero_le _)

theorem tryLease_swapped (hp : Pages room q) (htag : tag < q.sqsize) (hlen : len ≤ mdtsBytes)
    (h : q.tryLease tag len = some q') : Swapped room tag q q' := by
  obtain ⟨⟨segs, pool⟩, halloc, rfl⟩ := Option.map_eq_some_iff.1 h
  obtain ⟨htaken, harena, hpages, hsegs⟩ := BufPool.alloc_spec hp.wf halloc
  refine setData_swapped hp htag (hpages ▸ htaken) ?_ hsegs (hpages ▸ pagesOf_le_maxSegs hlen)
  exact congrArg (fun a => (a.map Run.len).getD 0) harena

theorem leaseOrOwned_swapped (hp : Pages room q) (htag : tag < q.sqsize) (hlen : len ≤ mdtsBytes) :
    Swapped room tag q (q.leaseOrOwned tag len) := by
  unfold leaseOrOwned
  cases h : q.tryLease tag len with
  | none => exact dropData_swapped hp htag
  | some q' => exact tryLease_swapped hp htag hlen h

theorem tryLease_eq_none (hp : Pages room q) (hlen : len ≤ mdtsBytes) :
    q.tryLease tag len = none ↔ q.pool.freePages < pagesOf len :=
  Option.map_eq_none_iff.trans (BufPool.alloc_eq_none_iff hp.wf (pagesOf_le_maxSegs hlen))

/-! ## The invariant -/

structure TagOk (q : LeaseQueue) (tag : Nat) : Prop where
  bound : q.place tag ≠ .free → tag < q.sqsize
  bare : (q.place tag).bare q.transport = true → q.lease tag = []
  reading : ∀ len, q.place tag = .waiting len → len ≤ mdtsBytes
  parked : tag ∈ q.pool.waiters → ∃ len, q.place tag = .waiting len ∧ q.pool.freePages < pagesOf len
  deferred : ∀ d ∈ q.poolWait, d.tag = tag →
    d.len ≤ mdtsBytes ∧ q.place tag = .receiving .other ∧ q.lease tag = []

structure WaitOk (q : LeaseQueue) : Prop where
  distinct : (q.poolWait.map Deferred.tag).Nodup
  rdmaOnly : q.transport = .tcp → q.poolWait = []
  front : q.phase = .resting ∨ q.phase = .unparking →
    ∀ d ∈ q.poolWait.head?, q.pool.freePages < pagesOf d.len

structure Inv (room : Nat) (q : LeaseQueue) : Prop where
  pages : Pages room q
  tags : ∀ tag, TagOk q tag
  wait : WaitOk q

/-- `q'` is `q` apart from `tag`, for as long as pages are short; who was parked may be awake. -/
structure Away (tag : Nat) (q q' : LeaseQueue) : Prop where
  transport : q'.transport = q.transport
  sqsize : q'.sqsize = q.sqsize
  place : ∀ other, other ≠ tag → q'.place other = q.place other
  lease : ∀ other, other ≠ tag → q'.lease other = q.lease other
  parked : ∀ other, other ≠ tag → other ∈ q'.pool.waiters →
    other ∈ q.pool.waiters ∧ q'.pool.freePages ≤ q.pool.freePages
  deferred : ∀ d ∈ q'.poolWait, d.tag ≠ tag → d ∈ q.poolWait

structure Unlisted (q : LeaseQueue) (tag : Nat) : Prop where
  deferred : ∀ d ∈ q.poolWait, d.tag ≠ tag
  parked : tag ∉ q.pool.waiters

namespace Inv

theorem bound (hi : Inv room q) (h : q.place tag = p) (hp : p ≠ .free) : tag < q.sqsize :=
  (hi.tags tag).bound (h ▸ hp)

theorem fresh (hi : Inv room q) (h : q.place tag = .free) : q.lease tag = [] :=
  (hi.tags tag).bare (h ▸ rfl)

theorem not_parked (hi : Inv room q) (h : q.place tag = p) (hp : ∀ len, p ≠ .waiting len) :
    tag ∉ q.pool.waiters := by
  intro hmem
  obtain ⟨len, hplace, -⟩ := (hi.tags tag).parked hmem
  exact hp len (h.symm.trans hplace)

theorem unlisted (hi : Inv room q) (h : q.place tag = p) (hp : ∀ len, p ≠ .waiting len)
    (hr : p ≠ .receiving .other) : q.Unlisted tag where
  deferred d hd heq := hr (h.symm.trans ((hi.tags tag).deferred d hd heq).2.1)
  parked := hi.not_parked h hp

theorem unlisted_tcp (hi : Inv room q) (h : q.place tag = p) (hp : ∀ len, p ≠ .waiting len)
    (htr : q.transport = .tcp) : q.Unlisted tag where
  deferred d hd := by
    rw [hi.wait.rdmaOnly htr] at hd
    cases hd
  parked := hi.not_parked h hp

/-- **A step of one tag** keeps the invariant when it leaves that tag and `pool_wait` in order. -/
theorem change (tag : Nat) (hi : Inv room q) (ha : Away tag q q') (hp : Pages room q') (ht : TagOk q' tag)
    (hw : WaitOk q') : Inv room q' := by
  refine ⟨hp, fun other => ?_, hw⟩
  by_cases hne : other = tag
  · exact hne ▸ ht
  have hother := hi.tags other
  have hplace := ha.place other hne
  have hlease := ha.lease other hne
  refine ⟨fun h => ?_, fun h => ?_, fun len h => ?_, fun h => ?_, fun d hd heq => ?_⟩
  · rw [ha.sqsize]
    exact hother.bound (hplace ▸ h)
  · rw [hlease]
    exact hother.bare (ha.transport ▸ hplace ▸ h)
  · exact hother.reading len (hplace ▸ h)
  · obtain ⟨hmem, hle⟩ := ha.parked other hne h
    obtain ⟨len, hwaiting, hshort⟩ := hother.parked hmem
    exact ⟨len, hplace.trans hwaiting, Nat.lt_of_le_of_lt hle hshort⟩
  · rw [hplace, hlease]
    exact hother.deferred d (ha.deferred d hd (heq ▸ hne)) heq

theorem move (hi : Inv room q) (hs : Swapped room tag q q') (htag : tag < q.sqsize)
    (hu : q.Unlisted tag) (hparked : ∀ n, p ≠ .waiting n)
    (hbare : p.bare q.transport = true → q'.lease tag = [])
    (hfront : q.phase = .resting ∨ q.phase = .unparking → q.poolWait ≠ [] →
      q'.pool.freePages ≤ q.pool.freePages)
    : Inv room (q'.setPlace tag p) := by
  refine hi.change tag ?_ (hs.pages.frame rfl rfl rfl) ?_ ?_
  · refine ⟨hs.transport, hs.sqsize, fun t ht => ?_, hs.lease, fun t _ h => hs.parked t h, ?_⟩
    · rw [setPlace_of_ne ht, hs.place]
    · exact fun d hmem _ => hs.poolWait ▸ hmem
  · have hself : (q'.setPlace tag p).place tag = p := setPlace_self p
    refine ⟨fun _ => ?_, fun h => ?_, fun n h => ?_, fun h => ?_, fun d hmem heq => ?_⟩
    · exact (Nat.lt_of_lt_of_eq htag hs.sqsize.symm :)
    · rw [hself] at h
      exact hbare (hs.transport ▸ h)
    · exact absurd (hself ▸ h) (hparked n)
    · exact absurd (hs.parked tag h).1 hu.parked
    · exact absurd heq (hu.deferred d (hs.poolWait ▸ hmem))
  · refine ⟨hs.poolWait ▸ hi.wait.distinct, fun htr => ?_, fun hph d hmem => ?_⟩
    · exact hs.poolWait.trans (hi.wait.rdmaOnly (hs.transport ▸ htr))
    · have hph : q.phase = .resting ∨ q.phase = .unparking := hs.phase ▸ hph
      have hmem : d ∈ q.poolWait.head? := hs.poolWait ▸ hmem
      have hne : q.poolWait ≠ [] := by
        intro hnil
        rw [hnil] at hmem
        cases hmem
      exact Nat.lt_of_le_of_lt (hfront hph hne) (hi.wait.front hph d hmem)

theorem place (hi : Inv room q) (htag : tag < q.sqsize) (hu : q.Unlisted tag)
    (hparked : ∀ n, p ≠ .waiting n) (hbare : p.bare q.transport = true → q.lease tag = []) :
    Inv room (q.setPlace tag p) :=
  hi.move (Swapped.refl hi.pages) htag hu hparked hbare fun _ _ => Nat.le_refl _

theorem park (hi : Inv room q) (htag : tag < q.sqsize) (hd : ∀ d ∈ q.poolWait, d.tag ≠ tag)
    (hlen : len ≤ mdtsBytes) (hbare : (Place.waiting len).bare q.transport = true → q.lease tag = [])
    (hshort : q.pool.freePages < pagesOf len) :
    Inv room ({ q with pool := { q.pool with waiters := q.pool.waiters ++ [tag] } }.setPlace tag
      (.waiting len)) := by
  have hself : (q.setPlace tag (.waiting len)).place tag = .waiting len := setPlace_self _
  refine hi.change tag ?_ ?_ ?_ ⟨hi.wait.distinct, hi.wait.rdmaOnly, hi.wait.front⟩
  · refine ⟨rfl, rfl, fun t ht => setPlace_of_ne ht _, fun _ _ => rfl, fun t hne h => ?_,
      fun _ hmem _ => hmem⟩
    rcases List.mem_append.1 h with h | h
    · exact ⟨h, Nat.le_refl _⟩
    · exact absurd (List.mem_singleton.1 h) hne
  · exact ⟨⟨hi.pages.wf.counted, hi.pages.wf.nonEmpty⟩, hi.pages.nonEmpty, hi.pages.small,
      hi.pages.capacity, hi.pages.accounted⟩
  · refine ⟨fun _ => htag, fun h => ?_, fun n h => ?_, fun _ => ⟨len, hself, hshort⟩,
      fun d hmem heq => absurd heq (hd d hmem)⟩
    · exact hbare (hself ▸ h :)
    · obtain rfl := Place.waiting.inj (hself.symm.trans h)
      exact hlen

theorem defer (hi : Inv room q) (hfree : q.place tag = .free) (htag : tag < q.sqsize)
    (htr : q.transport = .rdma) (hlen : len ≤ mdtsBytes) (hshort : q.pool.freePages < pagesOf len)
    (inCapsule : Bool) :
    Inv room { q.setPlace tag (.receiving .other) with
      poolWait := q.poolWait ++ [{ tag, len, inCapsule }] } := by
  have hself : (q.setPlace tag (.receiving .other)).place tag = .receiving .other := setPlace_self _
  have hu := hi.unlisted hfree (by simp) (by simp)
  refine hi.change tag ?_ (hi.pages.frame rfl rfl rfl) ?_ ?_
  · refine ⟨rfl, rfl, fun t ht => setPlace_of_ne ht _, fun _ _ => rfl,
      fun t _ h => ⟨h, Nat.le_refl _⟩, fun d hmem hne => ?_⟩
    rcases List.mem_append.1 hmem with h | h
    · exact h
    · obtain rfl := List.mem_singleton.1 h
      exact absurd rfl hne
  · refine ⟨fun _ => htag, fun _ => hi.fresh hfree, fun n h => ?_, fun h => absurd h hu.parked,
      fun d hmem heq => ?_⟩
    · cases hself.symm.trans h
    · rcases List.mem_append.1 hmem with h | h
      · exact absurd heq (hu.deferred d h)
      · obtain rfl := List.mem_singleton.1 h
        exact ⟨hlen, hself, hi.fresh hfree⟩
  · refine ⟨?_, (fun h => by cases htr.symm.trans h), fun hph d hmem => ?_⟩
    · rw [List.map_append, List.nodup_append]
      refine ⟨hi.wait.distinct, by simp, fun a ha b hb => ?_⟩
      obtain rfl : b = tag := by simpa using hb
      obtain ⟨d, hmem, rfl⟩ := List.mem_map.1 ha
      exact hu.deferred d hmem
    · -- the front is the one from before, or the new command
      cases hq : q.poolWait with
      | nil =>
        obtain rfl : { tag, len, inCapsule } = d := by simpa [hq] using hmem
        exact hshort
      | cons d' rest =>
        obtain rfl : d' = d := by simpa [hq] using hmem
        exact hi.wait.front hph d' (by rw [hq]; rfl)

theorem phase (hi : Inv room q) (ph : Phase)
    (hfront : ph = .resting ∨ ph = .unparking → ∀ d ∈ q.poolWait.head?,
      q.pool.freePages < pagesOf d.len) :
    Inv room { q with phase := ph } where
  pages := hi.pages.frame rfl rfl rfl
  tags := fun t =>
    let h := hi.tags t
    ⟨h.bound, h.bare, h.reading, h.parked, h.deferred⟩
  wait := ⟨hi.wait.distinct, hi.wait.rdmaOnly, hfront⟩

/-! ## Every step -/

theorem land (hi : Inv room q) {work : Work} {landing : Landing} (htr : q.transport = .tcp)
    (htag : tag < q.sqsize) (hfree : q.place tag = .free)
    (h : q.land tag work landing = some q') : Inv room q' := by
  have hu := hi.unlisted_tcp hfree (by simp) htr
  have hbare : ∀ {p : Place} {lease : List Run}, p ≠ .free → p.bare q.transport = true → lease = [] := by
    intro p lease hp h
    rw [htr, Place.bare_tcp hp] at h
    cases h
  cases landing with
  | none | retained =>
    obtain rfl := Option.some.inj h
    exact hi.place htag hu (by simp) (hbare (by simp))
  | buffer len =>
    obtain ⟨hlen, rfl⟩ := of_guard h
    refine hi.move (leaseOrOwned_swapped hi.pages htag hlen) htag hu (by simp) (hbare (by simp))
      fun _ hne => ?_
    exact absurd (hi.wait.rdmaOnly htr) hne

theorem pollRead (hi : Inv room q) (hbound : tag < q.sqsize)
    (hbare : q.transport = .rdma → q.lease tag = []) (hlen : len ≤ mdtsBytes) (hu : q.Unlisted tag) :
    Inv room (q.pollRead tag len) := by
  unfold LeaseQueue.pollRead
  cases h : q.tryLease tag len with
  | none =>
    have hnone : q.pool.alloc len = none := Option.map_eq_none_iff.1 h
    have hpark := hi.park hbound hu.deferred hlen (fun h => hbare (beq_iff_eq.1 h))
      ((tryLease_eq_none hi.pages hlen).1 h)
    simpa only [BufPool.allocAwait, hnone] using hpark
  | some q' =>
    have hs := tryLease_swapped hi.pages hbound hlen h
    refine hi.move hs hbound hu (by simp) (fun h => by cases h) fun _ hne => hs.fewer (hbare ?_)
    cases htr : q.transport with
    | tcp => exact absurd (hi.wait.rdmaOnly htr) hne
    | rdma => rfl

theorem stage (hi : Inv room q) (hs : Swapped room tag q q') (htag : tag < q.sqsize) (hu : q.Unlisted tag)
    (hlease : q.lease tag = []) (inCapsule : Bool) : Inv room (q'.setPlace tag (.staged inCapsule)) := by
  obtain ⟨hwaiting, hbare⟩ := Place.staged_cases inCapsule q.transport
  exact hi.move hs htag hu hwaiting (fun h => by cases hbare.symm.trans h) fun _ _ => hs.fewer hlease

theorem routeTo (hi : Inv room q) {how : Route} (htr : q.transport = .rdma) (htag : tag < q.sqsize)
    (hfree : q.place tag = .free) (h : q.routeTo tag how = some q') : Inv room q' := by
  have hlease := hi.fresh hfree
  have hu := hi.unlisted hfree (by simp) (by simp)
  cases how with
  | submit | fail =>
    obtain rfl := Option.some.inj h
    exact hi.place htag hu (by simp) fun _ => hlease
  | stage len inCapsule =>
    obtain ⟨hok, h⟩ := Option.ite_none_right_eq_some.1 h
    have hlen := le_mdtsBytes_of_stageable hok
    cases hl : q.tryLease tag len with
    | none =>
      simp only [tryStage, hl, Option.map_none, Option.some.injEq] at h
      obtain rfl := h
      exact hi.defer hfree htag htr hlen ((tryLease_eq_none hi.pages hlen).1 hl) inCapsule
    | some q₁ =>
      simp only [tryStage, hl, Option.map_some, Option.some.injEq] at h
      obtain rfl := h
      exact hi.stage (tryLease_swapped hi.pages htag hlen hl) htag hu hlease inCapsule

theorem frontStaged (hi : Inv room q) (h : q.frontStaged = some q') :
    Inv room { q' with phase := .draining } := by
  unfold LeaseQueue.frontStaged at h
  cases hq : q.poolWait with
  | nil =>
    rw [hq] at h
    cases h
  | cons d rest =>
    rw [hq] at h
    obtain ⟨hlen, hplace, hlease⟩ := (hi.tags d.tag).deferred d (hq ▸ List.mem_cons_self) rfl
    have htag : d.tag < q.sqsize := hi.bound hplace (by simp)
    have hdistinct := hi.wait.distinct
    rw [hq, List.map_cons, List.nodup_cons] at hdistinct
    simp only [tryStage, Option.map_map] at h
    obtain ⟨q₁, hl, rfl⟩ := Option.map_eq_some_iff.1 h
    have hs := tryLease_swapped hi.pages htag hlen hl
    -- without the front, and while a retry is due
    have hrest : Inv room { q with poolWait := rest, phase := .draining } := by
      refine ⟨hi.pages.frame rfl rfl rfl, fun t => ?_, hdistinct.2, fun htr => ?_, fun hph => ?_⟩
      · have ht := hi.tags t
        exact ⟨ht.bound, ht.bare, ht.reading, ht.parked,
          fun d' hmem' => ht.deferred d' (hq ▸ List.mem_cons_of_mem _ hmem')⟩
      · cases hq.symm.trans (hi.wait.rdmaOnly htr)
      · rcases hph with h | h <;> cases h
    have hs' : Swapped room d.tag { q with poolWait := rest, phase := .draining }
        { q₁ with poolWait := rest, phase := .draining } :=
      { hs with poolWait := rfl, phase := rfl, pages := hs.pages.frame rfl rfl rfl }
    refine hrest.stage hs' htag ⟨fun d' hmem' heq => ?_, hi.not_parked hplace (by simp)⟩ hlease
      d.inCapsule
    exact hdistinct.1 (heq ▸ List.mem_map_of_mem hmem')

theorem frontShort (hi : Inv room q) (h : q.frontStaged = none) :
    ∀ d ∈ q.poolWait.head?, q.pool.freePages < pagesOf d.len := by
  intro d hmem
  unfold LeaseQueue.frontStaged at h
  cases hq : q.poolWait with
  | nil =>
    rw [hq] at hmem
    cases hmem
  | cons d' rest =>
    rw [hq] at h hmem
    obtain rfl : d' = d := Option.some.inj hmem
    obtain ⟨hlen, -, -⟩ := (hi.tags d'.tag).deferred d' (hq ▸ List.mem_cons_self) rfl
    rw [Option.map_eq_none_iff, tryStage, Option.map_eq_none_iff] at h
    exact (tryLease_eq_none hi.pages hlen).1 h

/-- Pages come back while no write is deferred, or while a poll has yet to retry them. -/
theorem releaseTag (hi : Inv room q) (hplace : q.place tag = .responding)
    (hfront : q.phase = .resting ∨ q.phase = .unparking → q.poolWait = []) :
    Inv room (q.releaseTag tag) := by
  have htag : tag < q.sqsize := hi.bound hplace (by simp)
  refine hi.move (dropData_swapped hi.pages htag) htag (hi.unlisted hplace (by simp) (by simp)) (by simp)
    (fun _ => setData_self []) fun hph hne => ?_
  exact absurd (hfront hph) hne

theorem releaseAll {tags : List Nat} (hi : Inv room q) (htr : q.transport = .tcp) (hn : tags.Nodup)
    (hplace : ∀ tag ∈ tags, q.place tag = .responding) :
    Inv room (tags.foldl LeaseQueue.releaseTag q) ∧
      (q.pool.waiters = [] → (tags.foldl LeaseQueue.releaseTag q).pool.waiters = []) := by
  induction tags generalizing q with
  | nil => exact ⟨hi, id⟩
  | cons tag tags ih =>
    obtain ⟨hnot, hn⟩ := List.nodup_cons.1 hn
    obtain ⟨hfirst, hrest⟩ := List.forall_mem_cons.1 hplace
    have hdrop := dropData_swapped hi.pages (hi.bound hfirst (by simp))
    obtain ⟨hi', hawake⟩ := ih (hi.releaseTag hfirst fun _ => hi.wait.rdmaOnly htr) htr hn fun t ht => by
      have hne : t ≠ tag := fun heq => hnot (heq ▸ ht)
      rw [LeaseQueue.releaseTag, setPlace_of_ne hne, hdrop.place, hrest t ht]
    exact ⟨hi', fun hnone => hawake (hdrop.awake hnone)⟩

theorem step (hi : Inv room q) {a : LeaseAction} (h : q.step a = some q') : Inv room q' := by
  cases a with
  | capsule tag work landing =>
    obtain ⟨⟨htr, htag, hfree⟩, h⟩ := Option.ite_none_right_eq_some.1 h
    exact hi.land htr htag hfree h
  | arrived tag =>
    simp only [LeaseQueue.step] at h
    split at h
    · rename_i work hplace
      obtain ⟨hc, rfl⟩ := of_guard h
      have hu : q.Unlisted tag := by
        rcases hc with htr | ⟨-, hd⟩
        · exact hi.unlisted_tcp hplace (by simp) htr
        · exact ⟨hd, hi.not_parked hplace (by simp)⟩
      refine hi.place (hi.bound hplace (by simp)) hu (by simp) fun hb => (hi.tags tag).bare ?_
      rw [hplace]
      cases work with
      | read len => exact hb
      | other => cases hb
    · cases h
  | refused tag =>
    simp only [LeaseQueue.step] at h
    split at h
    · rename_i work hplace
      obtain ⟨htr, rfl⟩ := of_guard h
      exact hi.place (hi.bound hplace (by simp)) (hi.unlisted_tcp hplace (by simp) htr) (by simp)
        fun hb => by cases hb
    · cases h
  | start tag =>
    simp only [LeaseQueue.step] at h
    split at h
    · rename_i work hplace
      have hu := hi.unlisted hplace (by simp) (by simp)
      have htag := hi.bound hplace (by simp)
      obtain ⟨-, h⟩ := Option.ite_none_right_eq_some.1 h
      cases work with
      | other =>
        obtain rfl := Option.some.inj h
        exact hi.place htag hu (by simp) fun hb => by cases hb
      | read len =>
        obtain ⟨hlen, rfl⟩ := of_guard h
        refine hi.pollRead htag (fun htr => (hi.tags tag).bare ?_) hlen hu
        rw [hplace, htr]
        rfl
    · cases h
  | repoll tag =>
    simp only [LeaseQueue.step] at h
    split at h
    · rename_i len hplace
      obtain ⟨hc, rfl⟩ := of_guard h
      refine hi.pollRead (hi.bound hplace (by simp)) (fun htr => (hi.tags tag).bare ?_)
        ((hi.tags tag).reading len hplace) ⟨fun d hd heq => ?_, hc.2⟩
      · rw [hplace, htr]
        rfl
      · cases hplace.symm.trans ((hi.tags tag).deferred d hd heq).2.1
    · cases h
  | finish tag =>
    obtain ⟨⟨hplace, -⟩, rfl⟩ := of_guard h
    exact hi.place (hi.bound hplace (by simp)) (hi.unlisted hplace (by simp) (by simp)) (by simp)
      fun hb => by cases hb
  | release tag =>
    obtain ⟨⟨hplace, hphase⟩, rfl⟩ := of_guard h
    refine hi.releaseTag hplace fun hph => ?_
    -- over TCP nothing is deferred, over RDMA the poll has yet to retry
    cases htr : q.transport with
    | tcp => exact hi.wait.rdmaOnly htr
    | rdma =>
      rw [hphase, htr] at hph
      rcases hph with h | h <;> cases h
  | poll =>
    obtain ⟨-, rfl⟩ := of_guard h
    exact hi.phase .handling fun hph => by rcases hph with h | h <;> cases h
  | route tag how =>
    obtain ⟨⟨htr, -, htag, hfree⟩, h⟩ := Option.ite_none_right_eq_some.1 h
    exact hi.routeTo htr htag hfree h
  | drain =>
    obtain ⟨-, h⟩ := Option.ite_none_right_eq_some.1 h
    obtain ⟨q₁, hq₁, rfl⟩ := Option.map_eq_some_iff.1 h
    exact hi.frontStaged hq₁
  | drained =>
    obtain ⟨⟨-, hnone⟩, rfl⟩ := of_guard h
    exact hi.phase .unparking fun _ => hi.frontShort (Option.isNone_iff_eq_none.1 hnone)
  | polled =>
    obtain ⟨hc, rfl⟩ := of_guard h
    exact hi.phase .resting fun _ => hi.wait.front (.inr hc)
  | endLoop staged =>
    obtain ⟨⟨-, hn, hplace, hrdma⟩, rfl⟩ := of_guard h
    refine Inv.phase ?_ .ended fun hph => by rcases hph with h | h <;> cases h
    cases htr : q.transport with
    | tcp => exact (hi.releaseAll htr hn hplace).1
    | rdma =>
      rw [hrdma htr]
      exact hi

/-- With room for two of the largest transfers, pages that are short are with some other tag. -/
theorem leaseBeside (hi : Inv room q) (hroom : 2 * SlotData.maxSegs ≤ room) (hlen : len ≤ mdtsBytes)
    (hshort : q.pool.freePages < pagesOf len) : q.LeaseBeside tag := by
  have hmax := pagesOf_le_maxSegs hlen
  have hown := hi.pages.small tag
  have hall := hi.pages.accounted
  have hlt : pagesIn (q.lease tag) < ∑ t ∈ Finset.range q.sqsize, pagesIn (q.lease t) := by omega
  obtain ⟨other, hbound, hne, hpos⟩ := exists_pos_of_lt_sum (f := fun t => pagesIn (q.lease t)) hlt
  refine ⟨other, hbound, hne, fun hnone => ?_⟩
  rw [hnone] at hpos
  exact Nat.lt_irrefl 0 hpos

theorem satisfiable (hi : Inv room q) (hroom : 2 * SlotData.maxSegs ≤ room) (hlen : len ≤ mdtsBytes) :
    q.Satisfiable len := by
  have hmax := pagesOf_le_maxSegs hlen
  have hcap := hi.pages.capacity
  show pagesOf len + q.pool.arenaPages ≤ q.pool.npages
  omega

theorem waitsWell (hi : Inv room q) (hroom : 2 * SlotData.maxSegs ≤ room) : q.WaitsWell where
  reads := by
    intro tag hmem
    obtain ⟨len, hplace, hshort⟩ := (hi.tags tag).parked hmem
    exact hi.leaseBeside hroom ((hi.tags tag).reading len hplace) hshort
  writes := by
    intro hph d hmem
    -- pages are short for the front, and so for everyone behind it
    cases hq : q.poolWait with
    | nil =>
      rw [hq] at hmem
      cases hmem
    | cons front rest =>
      have hfront : front ∈ q.poolWait := hq ▸ List.mem_cons_self
      have hshort := hi.wait.front (.inl hph) front (by rw [hq]; rfl)
      exact hi.leaseBeside hroom ((hi.tags front.tag).deferred front hfront rfl).1 hshort
  readsFit := fun tag len hplace => hi.satisfiable hroom ((hi.tags tag).reading len hplace)
  writesFit := fun d hmem => hi.satisfiable hroom ((hi.tags d.tag).deferred d hmem rfl).1

theorem run (hi : Inv room q) {as : List LeaseAction} (h : runFrom LeaseQueue.step q as = some q') :
    Inv room q' :=
  @runFrom_invariant _ _ LeaseQueue.step (Inv room) (fun hi h => hi.step h) as _ _ hi h

end Inv

/-! ## The queue's pool as it is made -/

theorem sqsizeOf_le {transport : Transport} {asked sqsize : Nat}
    (h : sqsizeOf cli asked transport = some sqsize) : sqsize ≤ 256 := by
  have hrange := cli.range
  cases transport with
  | tcp =>
    rw [sqsizeOf] at h
    obtain ⟨hle, rfl⟩ := of_guard h
    omega
  | rdma =>
    obtain rfl := Option.some.inj h
    omega

theorem register_spec {pool : BufPool Nat} {sqsize : Nat} (transport : Transport)
    (registered : Option Nat) (hsize : sqsize ≤ 256) (hwf : pool.Wf) (hnone : pool.sendArena = none)
    (hall : pool.freePages = pool.npages) (hw : pool.waiters = []) :
    let p := register pool sqsize transport registered
    p.Wf ∧ p.npages = pool.npages ∧ p.freePages + p.arenaPages = p.npages ∧ p.waiters = [] ∧
      p.arenaPages ≤ 8 := by
  have harena : pool.arenaPages = 0 := by simp [BufPool.arenaPages, hnone]
  have hplain : ∀ idx, (pool.setBufIndex idx).Wf ∧ (pool.setBufIndex idx).npages = pool.npages ∧
      (pool.setBufIndex idx).freePages + (pool.setBufIndex idx).arenaPages
        = (pool.setBufIndex idx).npages ∧
      (pool.setBufIndex idx).waiters = [] ∧ (pool.setBufIndex idx).arenaPages ≤ 8 := by
    intro idx
    have harena' : (pool.setBufIndex idx).arenaPages = 0 := harena
    refine ⟨⟨hwf.counted, hwf.nonEmpty⟩, rfl, ?_, hw, by omega⟩
    rw [harena']
    exact hall
  cases registered with
  | none => exact ⟨hwf, rfl, by rw [register, harena]; exact hall, hw, by rw [register]; omega⟩
  | some idx =>
    cases transport with
    | rdma => exact hplain idx
    | tcp =>
      cases h : (pool.setBufIndex idx).reserveArena (2 * sqsize * arenaPerItem) with
      | none =>
        simp only [register, h, Option.getD_none]
        exact hplain idx
      | some p =>
        simp only [register, h, Option.getD_some]
        obtain ⟨htaken, hpages⟩ := BufPool.reserveArena_spec (hplain idx).1 h
        have hfree : p.freePages + pagesOf (2 * sqsize * arenaPerItem) = pool.freePages :=
          htaken.freePages
        have hnpages : p.npages = pool.npages := htaken.npages
        refine ⟨htaken.wf, hnpages, by omega, htaken.waiters.trans hw, ?_⟩
        rw [hpages]
        refine pagesOf_le ?_ (by decide)
        rw [arenaPerItem, Core.page]
        omega

theorem accept_inv {transport : Transport} {asked : Nat} {registered : Option Nat}
    (h : accept transport cli asked registered = some q) :
    ∃ room, Inv room q ∧ pagesOf cli.queueBufBytes ≤ room + 8 := by
  unfold accept at h
  split at h
  · rename_i sqsize pool hsize hnew
    obtain rfl := Option.some.inj h
    obtain ⟨hwf, hnpages, hfree, hw, hnone⟩ := BufPool.new_spec hnew
    obtain ⟨hwf', hnpages', hfree', hw', harena⟩ :=
      register_spec transport registered (sqsizeOf_le hsize) hwf hnone (by omega) hw
    refine ⟨(register pool sqsize transport registered).freePages, ⟨?_, fun tag => ?_, ?_⟩, by omega⟩
    · exact ⟨hwf', fun _ _ hmem => (List.not_mem_nil hmem).elim, fun _ => Nat.zero_le _, hfree'.symm,
        by simp⟩
    · refine ⟨fun hne => absurd rfl hne, fun _ => rfl, (fun _ h => nomatch h), fun hmem => ?_,
        (fun _ hmem => nomatch hmem)⟩
      rw [hw'] at hmem
      cases hmem
    · exact ⟨List.nodup_nil, fun _ => rfl, (fun _ _ hmem => nomatch hmem)⟩
  · cases h

/-! ## Pools that are too small -/

/-- The queue that `--queue-buf-mb 0` gives, with two entries: its pool has one page. -/
def onePage (transport : Transport) : LeaseQueue where
  transport := transport
  sqsize := 2
  pool := { npages := 1, free := [⟨0, 1⟩], freePages := 1, waiters := [], bufIndex := none,
            sendArena := none }
  place := fun _ => .free
  lease := fun _ => []
  poolWait := []
  phase := .resting

theorem accept_zero (transport : Transport) (hmb : cli.queueBufMb = 0) :
    accept transport cli 1 none = some (onePage transport) := by
  have hbytes : cli.queueBufBytes = 0 := by rw [Cli.queueBufBytes, hmb]; rfl
  have hsize : sqsizeOf cli 1 transport = some 2 := by
    have hrange := cli.range
    cases transport with
    | tcp => exact if_pos ⟨Nat.le_refl 2, hrange.1⟩
    | rdma =>
      show some (min (max 2 1) (max cli.ioQueueSize 1)) = some 2
      congr 1
      omega
  unfold accept
  rw [hsize, hbytes]
  rfl

def twoPageRead : Transport → List LeaseAction
  | .tcp => [.capsule 0 (.read 8192) .none, .start 0]
  | .rdma => [.poll, .route 0 (.submit (.read 8192)), .drained, .polled, .start 0]

theorem twoPageRead_strands (transport : Transport) :
    ∃ q', runFrom step (onePage transport) (twoPageRead transport) = some q' ∧
      q'.pool.waiters = [0] ∧ ∀ tag, q'.lease tag = [] := by
  cases transport <;> exact ⟨_, rfl, rfl, fun _ => rfl⟩

end LeaseQueue

/-- **Whoever waits for pool pages waits for a lease of another tag, and for no more pages than the pool
has**, in every run of every IO queue of the target, exactly when the command line gives the pool at
least one MiB. -/
theorem waits_for_other_lease_iff (transport : Transport) (cli : Cli) :
    (∀ asked registered q as q', LeaseQueue.accept transport cli asked registered = some q →
      runFrom LeaseQueue.step q as = some q' → q'.WaitsWell) ↔ 1 ≤ cli.queueBufMb := by
  constructor
  · intro hall
    by_contra hmb
    obtain ⟨q', hrun, hwaiters, hnone⟩ := LeaseQueue.twoPageRead_strands transport
    have hwell := hall 1 none _ _ q' (LeaseQueue.accept_zero transport (by omega)) hrun
    obtain ⟨other, -, -, hlease⟩ := hwell.reads 0 (by rw [hwaiters]; exact List.mem_singleton_self 0)
    exact hlease (hnone other)
  · intro hmb asked registered q as q' haccept hrun
    obtain ⟨room, hi, hroom⟩ := LeaseQueue.accept_inv haccept
    -- a MiB has 256 pages, and at most 8 of them are the send arena's
    have hbytes : 1024 * 1024 ≤ cli.queueBufBytes := by
      unfold Cli.queueBufBytes
      omega
    have hpages : 256 ≤ pagesOf cli.queueBufBytes := by
      unfold pagesOf
      rw [Core.page]
      omega
    have hmax : 2 * SlotData.maxSegs = 64 := rfl
    exact (hi.run hrun).waitsWell (by omega)

/-- `--queue-buf-mb 0` is accepted: the host's first read, of two pages, then waits for pages that
nobody has. -/
theorem zero_pool_strands_read :
    ∃ q q', LeaseQueue.accept .tcp ⟨0, 128, by decide⟩ 127 none = some q ∧
      runFrom LeaseQueue.step q [.capsule 0 (.read 8192) .none, .start 0] = some q' ∧
      q'.pool.waiters = [0] ∧ (∀ tag, q'.lease tag = []) ∧ ¬ q'.WaitsWell := by
  refine ⟨_, _, rfl, rfl, rfl, fun _ => rfl, fun hwell => ?_⟩
  obtain ⟨other, -, -, hlease⟩ := hwell.reads 0 (List.mem_singleton_self 0)
  exact hlease rfl

end Ioutgt.Target.Leases
