import Ioutgt.Rdma.Proof.Capsule

/-!
# Serving deferred commands oldest first

`handle_recv` claims a tag for the capsule it takes up without looking at `parked`, and `route_cmd`
asks the pool for pages without looking at `pool_wait`; only the drains at the end of a poll respect
the order.

* `RdmaQueue.Routes.waits_iff`: a routed command waits for pages exactly when the pool refuses it.
* `Served.InLine`: the numbers on the ledger go with the deferred commands, in order of arrival.
* `Served.step_keeps`: a step that takes turns keeps the order.
* `Served.Reaping`, `Served.Draining`: what a poll that finds its batch in turn keeps, completion by
  completion and in the drains.
* `deferred_oldest_first`: a run of polls that each find their batch in turn serves oldest first.
-/

namespace Ioutgt.Rdma

open Lib Ioutgt.Core Ioutgt.Nvme Ioutgt.Tcp

variable {B : Type} {role : Role B} {ask : Option Nat} {pool : Pool} {n : Nat}

/-! ## What a step does to the deferred commands -/

/-- How many commands the pool turns away: the one that asks it for too much, if any. -/
def refused (pool : Pool) : Option Nat → Nat
  | none => 0
  | some len => if (pool.alloc len).isSome then 0 else 1

namespace RdmaQueue

variable {q q' : RdmaQueue} {pool : Pool} {tag : Nat} {sqe : Sqe} {held : Option Nat}

/-- No write is given pages past those that wait for some. -/
def WaitsItsTurn (q : RdmaQueue) (pool : Pool) (ask : Option Nat) : Prop :=
  ∀ len, ask = some len → (pool.alloc len).isSome → q.poolWait = []

/-- A step that meets no RECV completion when a tag is free while commands are parked, and routes no
write that the pool has pages for while others wait on `pool_wait`. -/
structure TakesTurns (role : Role B) (q : RdmaQueue) (a : Action) : Prop where
  recv : ∀ ⦃pool idx rest⦄, a = .reap pool → q.cq = .recv idx :: rest → q.slots.freeTags ≠ [] →
    q.parked = [] ∧ q.WaitsItsTurn pool (asks role (q.capsule role idx).1 (q.capsule role idx).2)
  parked : ∀ ⦃pool c rest⦄, a = .drainParked pool → q.parked = c :: rest →
    q.WaitsItsTurn pool (asks role c.1 c.2)

theorem TakesTurns.other {a : Action} (h : ∀ pool, a ≠ .reap pool ∧ a ≠ .drainParked pool) :
    q.TakesTurns role a :=
  ⟨fun pool _ _ ha => absurd ha (h pool).1, fun pool _ _ ha => absurd ha (h pool).2⟩

/-- **A routed command waits for pages exactly when the pool refuses it.** -/
theorem Routes.waits_iff (h : Routes role pool q tag sqe held q') :
    q'.parked = q.parked ∧
      q'.poolWait.length = q.poolWait.length + refused pool (asks role sqe held) := by
  cases h with
  | submits hd => simp [asks, hd, refused]
  | fails hasks => simp [hasks, refused]
  | stages hasks hroom hst => cases hst <;> simp [hasks, hroom, refused]
  | waits hasks hfull => simp [hasks, hfull, refused]

end RdmaQueue

/-! ## The ledger -/

namespace Served

open RdmaQueue

variable {r r' : Served} {a : Action}

/-- The ledger's numbers go with the deferred commands, in order of arrival: those that wait for
pages, then those that wait for a tag. -/
structure InLine (r : Served) : Prop where
  parked : r.parkedNo.length = r.q.parked.length
  wait : r.waitNo.length = r.q.poolWait.length
  sorted : (r.waitNo ++ r.parkedNo).Pairwise (· < ·)
  below : ∀ n ∈ r.waitNo ++ r.parkedNo, n < r.arrived

theorem InLine.bootstrapped (cfg : QueueCfg) (connect : List UInt8) :
    InLine (Served.bootstrapped cfg connect) where
  parked := rfl
  wait := rfl
  sorted := .nil
  below := by simp [Served.bootstrapped]

theorem OldestFirst.bootstrapped (cfg : QueueCfg) (connect : List UInt8) :
    OldestFirst (Served.bootstrapped cfg connect) where
  tags := by simp [Served.bootstrapped]
  pages := by simp [Served.bootstrapped]

@[simp] theorem routed_frame (r : Served) (pool : Pool) (n : Nat) (ask : Option Nat) :
    (r.routed pool n ask).arrived = r.arrived ∧ (r.routed pool n ask).parkedNo = r.parkedNo ∧
      (r.routed pool n ask).tagGrants = r.tagGrants := by
  cases ask with
  | none => exact ⟨rfl, rfl, rfl⟩
  | some len =>
    rw [routed]
    split <;> exact ⟨rfl, rfl, rfl⟩

theorem routed_waitNo (r : Served) (pool : Pool) (n : Nat) (ask : Option Nat) :
    (r.routed pool n ask).waitNo = r.waitNo ++ List.replicate (refused pool ask) n := by
  cases ask with
  | none => simp [routed, refused]
  | some len =>
    rw [routed, refused]
    split <;> simp [*]

theorem routed_pageGrants (r : Served) (pool : Pool) (n : Nat) (ask : Option Nat) :
    (r.routed pool n ask).pageGrants = r.pageGrants ∨
      (∃ len, ask = some len ∧ (pool.alloc len).isSome) ∧
        (r.routed pool n ask).pageGrants = r.pageGrants ++ [⟨n, r.waitNo⟩] := by
  cases ask with
  | none => exact .inl rfl
  | some len =>
    rw [routed]
    split
    · rename_i ha
      exact .inr ⟨⟨len, rfl, ha⟩, rfl⟩
    · exact .inl rfl

theorem step_eq_some (h : step role r a = some r') :
    ∃ q, Rdma.step role r.q a = some q ∧ r' = { r.note role a with q } := by
  obtain ⟨q, hq, rfl⟩ := Option.map_eq_some_iff.1 h
  exact ⟨q, hq, rfl⟩

theorem inLine_routed {q : RdmaQueue} {r : Served}
    (hsorted : (r.waitNo ++ n :: r.parkedNo).Pairwise (· < ·))
    (hbelow : ∀ m ∈ r.waitNo ++ n :: r.parkedNo, m < r.arrived)
    (hparked : r.parkedNo.length = q.parked.length)
    (hwait : q.poolWait.length = r.waitNo.length + refused pool ask) :
    InLine { r.routed pool n ask with q } := by
  have hw := routed_waitNo r pool n ask
  have hsub : (r.waitNo ++ List.replicate (refused pool ask) n ++ r.parkedNo).Sublist
      (r.waitNo ++ n :: r.parkedNo) := by
    rw [List.append_assoc]
    refine List.Sublist.append_left ?_ _
    unfold refused
    split
    · exact (List.Sublist.refl _).cons _
    · split
      · exact (List.Sublist.refl _).cons _
      · exact List.Sublist.refl _
  exact {
    parked := by simpa using hparked
    wait := by simp [hw, hwait]
    sorted := by
      simp only [hw, routed_frame]
      exact hsorted.sublist hsub
    below := by
      simp only [hw, routed_frame]
      exact fun m hm => hbelow m (hsub.subset hm) }

theorem pages_routed {r : Served} (hp : ∀ g ∈ r.pageGrants, g.InOrder)
    (hturn : ∀ len, ask = some len → (pool.alloc len).isSome → r.waitNo = []) :
    ∀ g ∈ (r.routed pool n ask).pageGrants, g.InOrder := by
  rcases routed_pageGrants r pool n ask with h | ⟨⟨len, hask, ha⟩, h⟩
  · rw [h]
    exact hp
  · rw [h, hturn len hask ha]
    intro g hg
    rcases List.mem_append.1 hg with hg | hg
    · exact hp g hg
    · obtain rfl := List.mem_singleton.1 hg
      exact fun m hm => nomatch hm

theorem tags_append {ns : List Nat} {gs : List Grant} (h : ∀ g ∈ gs, g.InOrder)
    (hn : ∀ m ∈ ns, n < m) : ∀ g ∈ gs ++ [⟨n, ns⟩], g.InOrder := by
  intro g hg
  rcases List.mem_append.1 hg with hg | hg
  · exact h g hg
  · obtain rfl := List.mem_singleton.1 hg
    exact hn

theorem InLine.waitNo_eq_nil (h : InLine r) : r.waitNo = [] ↔ r.q.poolWait = [] := by
  rw [← List.length_eq_zero_iff, h.wait, List.length_eq_zero_iff]

theorem InLine.parkedNo_eq_nil (h : InLine r) : r.parkedNo = [] ↔ r.q.parked = [] := by
  rw [← List.length_eq_zero_iff, h.parked, List.length_eq_zero_iff]

theorem InLine.same {q : RdmaQueue} (h : InLine r) (hp : q.parked = r.q.parked)
    (hw : q.poolWait = r.q.poolWait) : InLine { r with q } :=
  ⟨by simp [h.parked, hp], by simp [h.wait, hw], h.sorted, h.below⟩

theorem sorted_concat {ns : List Nat} (hs : ns.Pairwise (· < ·)) (hb : ∀ m ∈ ns, m < n) :
    (ns ++ [n]).Pairwise (· < ·) ∧ ∀ m ∈ ns ++ [n], m < n + 1 := by
  refine ⟨List.pairwise_append.2 ⟨hs, by simp, by simpa using hb⟩, fun m hm => ?_⟩
  rcases List.mem_append.1 hm with hm | hm
  · exact Nat.lt_succ_of_lt (hb m hm)
  · exact List.mem_singleton.1 hm ▸ Nat.lt_succ_self n

/-- **A step that takes turns keeps the line and the order.** -/
theorem step_keeps (hi : InLine r) (hg : OldestFirst r) (hok : r.q.TakesTurns role a)
    (h : step role r a = some r') : InLine r' ∧ OldestFirst r' := by
  obtain ⟨q, hq, rfl⟩ := step_eq_some h
  cases step_spec hq with
  | parks hcq hfull =>
    simp only [note, hcq, if_pos hfull]
    have hlast := sorted_concat hi.sorted hi.below
    rw [List.append_assoc] at hlast
    exact ⟨⟨by simp [hi.parked], by simp [hi.wait, takenUp], hlast.1, hlast.2⟩, hg.tags, hg.pages⟩
  | routes hcq hfree _ hr =>
    obtain ⟨hsame, hwaits⟩ := hr.waits_iff
    simp only [note, hcq, if_neg hfree]
    obtain ⟨hnone, hturn⟩ := hok.recv rfl hcq hfree
    have hparked := hi.parkedNo_eq_nil.2 hnone
    have hlast := sorted_concat (List.pairwise_append.1 hi.sorted).1 fun m hm =>
      hi.below m (List.mem_append_left _ hm)
    refine ⟨inLine_routed ?_ ?_ ?_ ?_, ?_, ?_⟩
    · simp only [giveTag, hparked]
      exact hlast.1
    · simp only [giveTag, hparked]
      exact hlast.2
    · rw [hsame]
      exact hi.parked
    · simp only [giveTag, hwaits, hi.wait]
      rfl
    · simp only [routed_frame, giveTag, hparked]
      exact tags_append hg.tags (List.forall_mem_nil _)
    · exact pages_routed hg.pages fun len hask ha =>
        hi.waitNo_eq_nil.2 (hturn len hask ha)
  | hasRead hcq =>
    simp only [note, hcq]
    exact ⟨hi.same rfl rfl, hg.tags, hg.pages⟩
  | hasSent hcq hkind =>
    rcases hkind with rfl | rfl <;>
    · simp only [note, hcq]
      exact ⟨hi.same rfl rfl, hg.tags, hg.pages⟩
  | @unwaits pool tag sqe held ws q₁ hwait hst =>
    have hparked : q₁.parked = r.q.parked := by
      cases hst <;> rfl
    obtain ⟨n, rest, hn⟩ : ∃ n rest, r.waitNo = n :: rest :=
      List.exists_cons_of_length_pos (by rw [hi.wait, hwait]; simp)
    have hsorted := hi.sorted
    have hbelow := hi.below
    rw [hn, List.cons_append] at hsorted hbelow
    simp only [note, hn]
    refine ⟨⟨by simp [hi.parked, hparked], ?_, hsorted.of_cons, ?_⟩, hg.tags, ?_⟩
    · have hlen := hi.wait
      rw [hn, hwait] at hlen
      simpa using hlen
    · exact fun m hm => hbelow m (List.mem_cons_of_mem _ hm)
    · exact tags_append hg.pages fun m hm =>
        List.rel_of_pairwise_cons hsorted (List.mem_append_left _ hm)
  | @unparks pool tag sqe held ps slots _ hparked hfree _ hr =>
    obtain ⟨hsame, hwaits⟩ := hr.waits_iff
    obtain ⟨n, rest, hn⟩ : ∃ n rest, r.parkedNo = n :: rest :=
      List.exists_cons_of_length_pos (by rw [hi.parked, hparked]; simp)
    have hsorted := hi.sorted
    have hbelow := hi.below
    rw [hn] at hsorted hbelow
    simp only [note, hparked, hn]
    refine ⟨inLine_routed hsorted hbelow ?_ ?_, ?_, ?_⟩
    · have hlen := hi.parked
      rw [hn, hparked] at hlen
      simpa [giveTag, hsame] using hlen
    · simp only [giveTag, hwaits, hi.wait]
    · simp only [routed_frame, giveTag]
      exact tags_append hg.tags fun m hm =>
        List.rel_of_pairwise_cons (List.pairwise_append.1 hsorted).2.1 hm
    · exact pages_routed hg.pages fun len hask ha =>
        hi.waitNo_eq_nil.2 (hok.parked rfl hparked len hask ha)
  | arrives | sends | postReads | postResponses | takes | finishes =>
    exact ⟨hi.same rfl rfl, hg.tags, hg.pages⟩

end Served

/-! ## One poll -/

section

variable {pools : List Pool} {requests rest : List Nat} {wait wait' : List (Nat × Sqe × Option Nat)}

theorem PagesInTurn.waits {q : RdmaQueue} (h : PagesInTurn pools requests q.poolWait)
    (hp : pool ∈ pools) (hm : ∀ len, ask = some len → len ∈ requests) : q.WaitsItsTurn pool ask := by
  intro len hask hroom
  rcases h with hnone | ⟨hwait, -⟩
  · rw [hnone pool hp len (hm len hask)] at hroom
    cases hroom
  · exact hwait

theorem PagesInTurn.routed (h : PagesInTurn pools requests wait) (hp : pool ∈ pools)
    (hperm : requests.Perm (ask.toList ++ rest))
    (hw : wait'.length = wait.length + refused pool ask) : PagesInTurn pools rest wait' := by
  have hrest : ∀ len ∈ rest, len ∈ requests := fun len hl =>
    hperm.mem_iff.2 (List.mem_append_right _ hl)
  rcases h with hnone | ⟨rfl, hall | hone⟩
  · exact .inl fun p hp len hl => hnone p hp len (hrest len hl)
  · have hzero : refused pool ask = 0 := by
      cases ask with
      | none => rfl
      | some len => exact if_pos (hall pool hp len (hperm.mem_iff.2 (List.mem_cons_self ..)))
    refine .inr ⟨List.eq_nil_of_length_eq_zero (by simpa [hzero] using hw), .inl fun p hp len hl => ?_⟩
    exact hall p hp len (hrest len hl)
  · have hlen := hperm.length_eq
    rw [List.length_append] at hlen
    cases ask with
    | none =>
      refine .inr ⟨List.eq_nil_of_length_eq_zero hw, .inr ?_⟩
      simp only [Option.toList_none, List.length_nil] at hlen
      omega
    | some len =>
      -- it was the only one
      have hnil : rest = [] := by
        refine List.eq_nil_of_length_eq_zero ?_
        simp only [Option.toList_some, List.length_singleton] at hlen
        omega
      exact .inl fun _ _ _ hl => nomatch hnil ▸ hl

end

namespace RdmaQueue

variable {q q' : RdmaQueue} {tag : Nat} {sqe : Sqe} {held : Option Nat}

theorem Goes.freeTags {a a' : SlotArray Sqe} {st st' : SlotState} {cmd : Sqe}
    (h : Goes a a' tag st st' cmd) : (if st = .free then [tag] else []) ++ a'.freeTags
      = (if st' = .free then [tag] else []) ++ a.freeTags := by
  obtain ⟨s, hm, rfl, -, -⟩ := h
  exact hm.tags

theorem Goes.freeTags_eq {a a' : SlotArray Sqe} {st st' : SlotState} {cmd : Sqe}
    (h : Goes a a' tag st st' cmd) (hst : st ≠ .free) (hst' : st' ≠ .free) :
    a'.freeTags = a.freeTags := by
  simpa [hst, hst'] using h.freeTags

/-- What the routing of a command leaves alone. -/
structure Frame (q q' : RdmaQueue) : Prop where
  cq : q'.cq = q.cq
  recvBuf : q'.recvBuf = q.recvBuf
  parked : q'.parked = q.parked
  freeTags : q'.slots.freeTags = q.slots.freeTags

theorem Stages.frame (h : Stages q tag sqe held q') : Frame q q' := by
  cases h with
  | copies hgoes => exact ⟨rfl, rfl, rfl, hgoes.freeTags_eq (by simp) (by simp)⟩
  | reads hagree => exact ⟨rfl, rfl, rfl, hagree.freeTags⟩

theorem Routes.frame (h : Routes role pool q tag sqe held q') : Frame q q' := by
  cases h with
  | submits _ hgoes | fails _ hgoes => exact ⟨rfl, rfl, rfl, hgoes.freeTags_eq (by simp) (by simp)⟩
  | stages _ _ hst => exact hst.frame
  | waits => exact ⟨rfl, rfl, rfl, rfl⟩

theorem routable_eq (hcq : q'.cq = q.cq) (hbuf : q'.recvBuf = q.recvBuf)
    (hparked : q'.parked = q.parked) : q'.routable role = q.routable role := by
  have hcap : q'.capsule role = q.capsule role := by
    unfold capsule recvSlice
    rw [hbuf]
  rw [routable, routable, hcq, hparked, hcap]

theorem routable_recv {idx : Nat} {rest : List Wc} (hcq : q.cq = .recv idx :: rest) :
    q.routable role = q.capsule role idx :: { q with cq := rest }.routable role := by
  rw [routable, hcq]
  rfl

theorem requests_cons {c : Sqe × Option Nat} {cs : List (Sqe × Option Nat)}
    (h : (q.routable role).Perm (c :: cs)) (hcs : q'.routable role = cs) :
    (q.requests role).Perm ((asks role c.1 c.2).toList ++ q'.requests role) := by
  have hperm := h.filterMap fun c : Sqe × Option Nat => asks role c.1 c.2
  rw [Bufs.filterMap_cons_toList, ← hcs] at hperm
  exact hperm

end RdmaQueue

theorem processCqes_eq_some {S : Type} {queue : S → RdmaQueue} {step : S → Action → Option S}
    {s s' : S} {p : Poll} : processCqes queue step s p = some s' ↔
      p.reaps.length = (queue s).cq.length ∧ ∃ s₁, runFrom step s (p.reaps.map .reap) = some s₁ ∧
        ∃ s₂, runFrom step s₁ (p.waits.map .drainWait) = some s₂ ∧
          (queue s₂).waitStops p.stop = true ∧
          ∃ s₃, runFrom step s₂ (p.parks.map .drainParked) = some s₃ ∧
            ((queue s₃).parked = [] ∨ (queue s₃).slots.freeTags = []) ∧
            step s₃ .postReads = some s' := by
  simp [processCqes, Option.bind_eq_some_iff, guard, or_iff_not_imp_left]

namespace Served

open RdmaQueue

variable {r r' : Served} {pools : List Pool}

structure Draining (role : Role B) (pools : List Pool) (r : Served) : Prop where
  line : InLine r
  first : OldestFirst r
  pages : PagesInTurn pools (r.q.requests role) r.q.poolWait

/-- While capsules are left in the batch, nobody is parked or no tag is free. -/
structure Reaping (role : Role B) (pools : List Pool) (r : Served) : Prop
    extends Draining role pools r where
  tags : r.q.TagsInTurn
  idle : r.q.parked = [] ∨ r.q.slots.freeTags = [] ∨ r.q.cq.filterMap Wc.buf = []

theorem Reaping.takesTurns (h : Reaping role pools r) (hp : pool ∈ pools) :
    r.q.TakesTurns role (.reap pool) where
  recv := by
    intro pool' idx rest ha hcq hfree
    obtain rfl := Action.reap.inj ha
    refine ⟨?_, h.pages.waits hp fun len hask => ?_⟩
    · rcases h.idle with hnone | hfull | hlast
      · exact hnone
      · exact absurd hfull hfree
      · simp [hcq, Wc.buf] at hlast
    · exact List.mem_filterMap.2 ⟨_, routable_recv hcq ▸ List.mem_cons_self .., hask⟩
  parked := fun _ _ _ ha => by cases ha

theorem Reaping.step (h : Reaping role pools r) (hp : pool ∈ pools)
    (hs : step role r (.reap pool) = some r') : Reaping role pools r' := by
  obtain ⟨hline, hfirst⟩ := step_keeps h.line h.first (h.takesTurns hp) hs
  obtain ⟨q, hq, rfl⟩ := step_eq_some hs
  suffices hrest : PagesInTurn pools (q.requests role) q.poolWait ∧ q.TagsInTurn ∧
      (q.parked = [] ∨ q.slots.freeTags = [] ∨ q.cq.filterMap Wc.buf = []) from
    ⟨⟨hline, hfirst, hrest.1⟩, hrest.2.1, hrest.2.2⟩
  cases step_spec hq with
  | @parks _ idx rest hcq hfull =>
    refine ⟨h.pages.routed hp ?_ (show _ = _ + refused pool none from rfl), .inr ?_, .inr (.inl hfull)⟩
    · -- the capsule goes from the head of the batch to the end of the parked
      have hmoved : { r.q.takenUp role idx rest with
            parked := r.q.parked ++ [r.q.capsule role idx] }.routable role
          = { r.q with cq := rest }.routable role ++ [r.q.capsule role idx] :=
        (List.append_assoc ..).symm
      rw [requests, requests, routable_recv hcq, hmoved]
      exact (List.perm_append_singleton ..).symm.filterMap _
    · rcases h.tags with ⟨-, hroom⟩ | hbehind
      · simp [hcq, Wc.buf, hfull] at hroom
      · exact (hcq ▸ hbehind).of_cons
  | @routes _ idx tag rest slots _ hcq hfree hgoes hr =>
    have hframe := hr.frame
    have hnone := ((h.takesTurns hp).recv rfl hcq hfree).1
    refine ⟨h.pages.routed hp (requests_cons (.of_eq (routable_recv hcq)) ?_) hr.waits_iff.2, ?_, ?_⟩
    · exact routable_eq hframe.cq hframe.recvBuf hframe.parked
    · rcases h.tags with ⟨-, hroom⟩ | hbehind
      · refine .inl ⟨hframe.parked.trans hnone, ?_⟩
        have htags := congrArg List.length hgoes.freeTags
        rw [hframe.cq, hframe.freeTags]
        simp [hcq, Wc.buf, takenUp] at hroom htags ⊢
        omega
      · refine .inr ?_
        rw [hframe.cq]
        exact (hcq ▸ hbehind).of_cons
    · exact .inl (hframe.parked.trans hnone)
  | @hasRead _ tag rest slots hcq hgoes =>
    have htags := hgoes.freeTags_eq (by simp) (by simp)
    refine ⟨?_, ?_, ?_⟩
    · have hsame : { r.q with cq := rest, slots }.routable role = r.q.routable role := by
        rw [routable, routable, hcq]
        rfl
      rw [requests, hsame]
      exact h.pages
    · refine h.tags.imp (fun hroom => ?_) fun hbehind => (hcq ▸ hbehind).of_cons
      simpa [hcq, Wc.buf, htags] using hroom
    · simpa [hcq, Wc.buf, htags] using h.idle
  | @hasSent _ wc tag rest slots inflight hcq hkind hdone =>
    have hwc : wc.buf = none ∧ wc.ofResponse = true := by
      rcases hkind with rfl | rfl <;> exact ⟨rfl, rfl⟩
    have htags : r.q.slots.freeTags.length ≤ slots.freeTags.length := by
      rcases hdone with rfl | hgoes
      · exact Nat.le_refl _
      · have := congrArg List.length hgoes.freeTags
        simp at this
        omega
    refine ⟨?_, ?_, ?_⟩
    · have hsame : { r.q with cq := rest, slots, inflight }.routable role = r.q.routable role := by
        rw [routable, routable, hcq, List.filterMap_cons_none hwc.1]
        rfl
      rw [requests, hsame]
      exact h.pages
    · refine h.tags.imp (fun hroom => ?_) fun hbehind => (hcq ▸ hbehind).of_cons
      simp [hcq, hwc.1] at hroom ⊢
      exact ⟨hroom.1, hroom.2.trans htags⟩
    · rcases h.tags with ⟨hnone, -⟩ | hbehind
      · exact .inl hnone
      · -- no capsule comes behind the response
        rw [hcq] at hbehind
        refine .inr (.inr (List.filterMap_eq_nil_iff.2 fun b hb => ?_))
        exact List.rel_of_pairwise_cons hbehind hb hwc.2

theorem Draining.wait (h : Draining role pools r) (hs : step role r (.drainWait pool) = some r') :
    Draining role pools r' := by
  obtain ⟨hline, hfirst⟩ := step_keeps h.line h.first (.other (by simp)) hs
  obtain ⟨q, hq, rfl⟩ := step_eq_some hs
  refine ⟨hline, hfirst, ?_⟩
  cases step_spec hq with
  | @unwaits _ tag sqe held rest q₁ hwait hst =>
    have hframe := hst.frame
    rcases h.pages with hnone | ⟨hnil, -⟩
    · have hsame : { q₁ with poolWait := rest }.routable role = r.q.routable role :=
        routable_eq hframe.cq hframe.recvBuf hframe.parked
      refine .inl ?_
      rw [requests, ← hsame] at hnone
      exact hnone
    · cases hwait.symm.trans hnil

theorem Draining.park (h : Draining role pools r) (hp : pool ∈ pools)
    (hs : step role r (.drainParked pool) = some r') : Draining role pools r' := by
  have hperm : ∀ {c cs}, r.q.parked = c :: cs →
      (r.q.routable role).Perm (c :: { r.q with parked := cs }.routable role) := by
    intro c cs hc
    rw [routable, hc]
    exact List.perm_middle
  have hturns : r.q.TakesTurns role (.drainParked pool) := by
    refine ⟨fun _ _ _ ha => (by cases ha), fun _ c _ ha hc => ?_⟩
    obtain rfl := Action.drainParked.inj ha
    exact h.pages.waits hp fun len hask =>
      List.mem_filterMap.2 ⟨c, (hperm hc).mem_iff.2 (List.mem_cons_self ..), hask⟩
  obtain ⟨hline, hfirst⟩ := step_keeps h.line h.first hturns hs
  obtain ⟨q, hq, rfl⟩ := step_eq_some hs
  refine ⟨hline, hfirst, ?_⟩
  cases step_spec hq with
  | @unparks _ tag sqe held rest slots _ hparked hfree hgoes hr =>
    have hframe := hr.frame
    exact h.pages.routed hp (requests_cons (hperm hparked)
      (routable_eq hframe.cq hframe.recvBuf hframe.parked)) hr.waits_iff.2

/-! ## Whole runs -/

/-- Between two polls commands are parked only while no tag is free. -/
structure Between (r : Served) : Prop where
  line : InLine r
  first : OldestFirst r
  idle : r.q.parked = [] ∨ r.q.slots.freeTags = []

theorem Between.other {a : Action} (h : Between r) (ha : a.ofPoll = false)
    (hs : step role r a = some r') : Between r' := by
  have hturns : r.q.TakesTurns role a := by
    refine .other fun pool => ⟨?_, ?_⟩ <;>
    · rintro rfl
      cases ha
  obtain ⟨hline, hfirst⟩ := step_keeps h.line h.first hturns hs
  obtain ⟨q, hq, rfl⟩ := step_eq_some hs
  refine ⟨hline, hfirst, ?_⟩
  cases step_spec hq with
  | arrives | postResponses => exact h.idle
  | sends _ hagree => exact h.idle.imp id hagree.freeTags.trans
  | takes hgoes | finishes hgoes =>
    exact h.idle.imp id (hgoes.freeTags_eq (by simp) (by simp)).trans
  | _ => cases ha

theorem Between.poll {p : Poll} (h : Between r) (ht : r.q.TagsInTurn)
    (hpages : PagesInTurn p.routing (r.q.requests role) r.q.poolWait)
    (hs : processCqes q (step role) r p = some r') : Between r' := by
  obtain ⟨-, r₁, hreap, r₂, hwait, -, r₃, hpark, hidle, hpost⟩ := processCqes_eq_some.1 hs
  have hstart : Reaping role p.routing r :=
    ⟨⟨h.line, h.first, hpages⟩, ht, h.idle.imp id .inl⟩
  have h₁ := runFrom_map_invariant (fun pool hp hr hs =>
    Reaping.step hr (List.mem_append_left _ hp) hs) hstart hreap
  have h₂ := runFrom_map_invariant (fun _ _ hd hs => Draining.wait hd hs) h₁.toDraining hwait
  have h₃ := runFrom_map_invariant (fun pool hp hd hs =>
    Draining.park hd (List.mem_append_right _ hp) hs) h₂ hpark
  obtain ⟨hline, hfirst⟩ := step_keeps h₃.line h₃.first (.other (by simp)) hpost
  refine ⟨hline, hfirst, ?_⟩
  obtain ⟨q, hq, rfl⟩ := step_eq_some hpost
  cases step_spec hq
  exact hidle

theorem Between.event {e : Event} (h : Between r) (hok : r.q.InTurn role e)
    (hs : eventStep q (step role) r e = some r') : Between r' := by
  cases e with
  | poll p => exact h.poll hok.1 hok.2 hs
  | other a =>
    cases ha : a.ofPoll <;> simp only [eventStep, ha] at hs
    · exact h.other ha hs
    · cases hs

end Served

open Served

/-- **Deferred work is served oldest first in every run whose polls find their batch in turn**, for the
tags (`TagsInTurn`) and for the pages (`PagesInTurn`). -/
theorem deferred_oldest_first (role : Role B) (cfg : QueueCfg) (connect : List UInt8)
    (es : List Event) (r : Served)
    (hrun : runFrom (eventStep q (Served.step role)) (Served.bootstrapped cfg connect) es = some r)
    (hok : StepsOk (eventStep q (Served.step role)) (fun s e => s.q.InTurn role e)
      (Served.bootstrapped cfg connect) es) : r.OldestFirst :=
  (@runFrom_invariant_of _ _ (eventStep q (Served.step role)) Between
    (fun s e => s.q.InTurn role e) (fun h hok hs => h.event hok hs) es _ _
    ⟨InLine.bootstrapped cfg connect, OldestFirst.bootstrapped cfg connect, .inl rfl⟩ hok hrun).first

def flushCapsule : List UInt8 := { Sqe.zeroed with opcode := IoOpcode.flush }.asBytes

/-- A poll of `reaps` completions that un-parks `parks` commands. -/
def roomyPoll (reaps parks : Nat) : Event :=
  .poll { reaps := List.replicate reaps RdmaQueue.roomyPool, waits := []
          stop := RdmaQueue.roomyPool, parks := List.replicate parks RdmaQueue.roomyPool }

/-- Two commands fill the queue and are answered, and a third comes while both tags are held. -/
def fullThenThird : List Event :=
  [.other (.nicSend []), roomyPoll 1 0, .other (.arrive 0 flushCapsule),
    .other (.arrive 1 flushCapsule), roomyPoll 2 0, .other (.take 0), .other (.take 1),
    .other (.finish 0 0 0 0 .empty), .other (.finish 1 0 0 0 .empty), .other .postResponses,
    .other (.arrive 0 flushCapsule), roomyPoll 1 0]

/-- A SEND completion that a poll ends with frees a tag for the parked command. -/
theorem deferred_oldest_first_unparked :
    ∃ r, runFrom (eventStep q (Served.step (.io (IoState.new Unit))))
        (Served.bootstrapped twoSlots connectCapsule)
        (fullThenThird ++ [.other (.nicSend []), roomyPoll 1 1]) = some r ∧ r.OldestFirst := by
  obtain ⟨r, hr⟩ := Option.isSome_iff_exists.1 (by decide +kernel :
    (runFrom (eventStep q (Served.step (.io (IoState.new Unit))))
      (Served.bootstrapped twoSlots connectCapsule)
      (fullThenThird ++ [.other (.nicSend []), roomyPoll 1 1])).isSome = true)
  exact ⟨r, hr, deferred_oldest_first _ _ _ _ r hr (by decide +kernel)⟩

def lastPage : Pool where
  alloc := fun len => if len ≤ 4096 then some [List.replicate len 0] else none
  fits := by
    intro len segs h
    split at h
    · obtain rfl := Option.some.inj h
      simp [SlotData.LeaseOk, SlotData.maxSegs]
    · cases h

def writeCapsule (len : Nat) : List UInt8 :=
  { Sqe.zeroed with
    opcode := IoOpcode.write
    dptr := { addr := 0, length := len, rsvd := [0, 0, 0], sglType := keyedSglTypeHi <<< 4 } }.asBytes

/-- Tags: the host has both completions and sends a fourth command; in one poll, the first SEND
completion comes ahead of its capsule, which is given the tag while the third command is parked.
Pages: in one poll, a write of one page is given the last one while a write of two waits for pages. -/
theorem later_capsule_overtakes_parked :
    (runFrom (eventStep q (Served.step (.io (IoState.new Unit))))
      (Served.bootstrapped twoSlots connectCapsule)
      (fullThenThird ++ [.other (.nicSend []), .other (.arrive 1 flushCapsule), roomyPoll 2 0])).map
        (fun r => (r.tagGrants, r.parkedNo)) = some ([⟨0, []⟩, ⟨1, []⟩, ⟨3, [2]⟩], [2]) ∧
    (runFrom (eventStep q (Served.step (.io (IoState.new Unit))))
      (Served.bootstrapped twoSlots connectCapsule)
      [.other (.nicSend []), roomyPoll 1 0, .other (.arrive 0 (writeCapsule 8192)),
        .other (.arrive 1 (writeCapsule 4096)),
        .poll { reaps := [lastPage, lastPage], waits := [], stop := lastPage, parks := [] }]).map
        (fun r => (r.pageGrants, r.waitNo)) = some ([⟨1, [0]⟩], [0]) := by
  decide +kernel

end Ioutgt.Rdma
