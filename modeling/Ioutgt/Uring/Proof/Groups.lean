import Ioutgt.Uring.Groups
import Ioutgt.Uring.Proof.Slab

/-!
# A group id comes back while its receive is armed

`BufRing::drop` does not wait for the receive that draws from the ring. A loop that ends by what its
receive reports ends after the terminal completion; one that ends by a PDU it was sent does not.

* `Going`: all that has come of a live receive is data, in the slab as in the ring;
* `GroupsOk`, `Recvs`: what every step keeps, the second as long as no group came back too early;
* `returned_idle_iff`: the runs in which none does.
-/

namespace Ioutgt.Uring

open Lib

/-- The result of a receive that goes on. -/
def CqeResult.IsData (r : CqeResult) : Prop := 0 < r.result ∧ r.more = true

/-- The entry of a receive of which there is nothing but data. -/
def Slab.Going (s : Slab) (key : Nat) : Prop :=
  ∃ e, s.entries key = some e ∧ e.terminated = false ∧ ∀ r ∈ e.results, r.IsData

namespace Slab

variable {s s' : Slab} {key key' task : Nat}

theorem Going.orphan (h : s.Going key) (key' : Nat) : (s.orphan key').Going key := by
  obtain ⟨e, he, ht, hr⟩ := h
  by_cases hk : key = key'
  · subst hk
    exact ⟨{ e with orphaned := true, waker := none }, by simp [Slab.orphan, he, ht], ht, hr⟩
  · exact ⟨e, by rw [entries_orphan_of_ne s hk, he], ht, hr⟩

theorem Going.poll {p : Polled × Bool × Slab} (h : s.Going key) (hp : s.pollNext key task = some p) :
    p.2.2.Going key ∧ (p.1 = .pending ∨ ∃ r : CqeResult, p.1 = .ready r ∧ r.IsData) := by
  obtain ⟨e, he, ht, hr⟩ := h
  simp only [pollNext, he, ht, Option.map_some, Bool.false_and, Bool.false_eq_true, if_false] at hp
  cases hres : e.results with
  | nil =>
    simp only [hres, Option.some.injEq] at hp
    subst hp
    exact ⟨⟨_, entries_put_self .., rfl, by simp⟩, .inl rfl⟩
  | cons r rest =>
    simp only [hres, Option.some.injEq] at hp
    subst hp
    rw [hres] at hr
    exact ⟨⟨_, entries_put_self .., rfl, fun x hx => hr x (.tail _ hx)⟩, .inr ⟨r, rfl, hr r (.head _)⟩⟩

theorem Going.reap : ∀ {l : List Cqe} {s : Slab}, s.Going key →
    (∀ q ∈ l, q.key = some key → q.result.IsData) → (s.reap l).1.Going key
  | [], _, h, _ => h
  | q :: l, s, h, hl => by
    refine Going.reap (l := l) (s := (s.route q).1) ?_ fun q' hq' => hl q' (.tail _ hq')
    by_cases hk : q.key = some key
    · have hdata := hl q (.head _) hk
      obtain ⟨e, he, ht, hr⟩ := h
      cases ho : e.orphaned with
      | true =>
        exact ⟨{ e with terminated := false }, by simp [route, hk, he, ho, ht, hdata.2], rfl, hr⟩
      | false =>
        rw [route_self hk he ho]
        refine ⟨_, entries_put_self .., by simp [ht, hdata.2], fun x hx => ?_⟩
        rcases List.mem_append.1 hx with hx | hx
        · exact hr x hx
        · exact List.mem_singleton.1 hx ▸ hdata
    · obtain ⟨e, he, hrest⟩ := h
      exact ⟨e, by rw [entries_route_of_ne hk, he], hrest⟩

end Slab

namespace Groups

variable {t t' : Groups} {k : Nat} {c c' : RingConn} {a : Action}

/-- Ids are with the pool or with one connection. -/
structure GroupsOk (t : Groups) : Prop where
  nodup : t.pool.ids.Nodup
  taken : ∀ {k c}, t.conns k = some c → c.bgid ∉ t.pool.ids ∧ t.pool.isSome ∧ k < t.opened
  inj : ∀ {k k' c c'}, t.conns k = some c → t.conns k' = some c' → c.bgid = c'.bgid → k = k'

/-- No group came back with a receive live on it. -/
def Idle (t : Groups) : Prop := ∀ e ∈ t.returned, e.2 = []

/-- A live receive belongs to the connection that has its group, as the one its reader polls if the
loop still runs. -/
structure RecvOk (t : Groups) (r : LiveRecv) : Prop where
  owner : ∃ c, t.conns r.conn = some c ∧ c.bgid = r.bgid ∧ (c.driving = true → c.op = some r.key)
  lt : r.key < t.next
  going : t.slab.Going r.key
  posted : ∀ q ∈ t.cqes, q.key = some r.key → q.result.IsData

theorem RecvOk.of_conn {r : LiveRecv} (h : RecvOk t r) (hc : t.conns r.conn = some c) :
    c.bgid = r.bgid ∧ (c.driving = true → c.op = some r.key) := by
  obtain ⟨d, hd, hrest⟩ := h.owner
  rwa [Option.some.inj (hc.symm.trans hd)]

structure Recvs (t : Groups) : Prop where
  live : ∀ r ∈ t.live, RecvOk t r
  keys : ∀ q ∈ t.cqes, ∀ key, q.key = some key → key < t.next

structure Inv (t : Groups) : Prop where
  groups : GroupsOk t
  recvs : Idle t → Recvs t

theorem put_conns_of_ne {k' : Nat} (h : k' ≠ k) : (t.put k c).conns k' = t.conns k' := by
  unfold put dropRing
  split <;> exact Function.update_of_ne h ..

theorem put_frame (t : Groups) (k : Nat) (c : RingConn) : (t.put k c).live = t.live ∧
    (t.put k c).next = t.next ∧ (t.put k c).slab = t.slab ∧ (t.put k c).cqes = t.cqes := by
  unfold put dropRing
  split <;> exact ⟨rfl, rfl, rfl, rfl⟩

theorem idle_put : Idle (t.put k c) ↔
    Idle t ∧ (c.driving = false ∧ c.retained = 0 → t.liveOn c.bgid = []) := by
  unfold put dropRing
  split
  · rename_i hdrop
    simp [Idle, or_imp, forall_and, hdrop]
  · rename_i hkeep
    simp [Idle, hkeep]

theorem GroupsOk.put (h : GroupsOk t) (hc : t.conns k = some c) (hb : c'.bgid = c.bgid) :
    GroupsOk (t.put k c') := by
  obtain ⟨hfree, hsome, -⟩ := h.taken hc
  obtain ⟨ids, hids⟩ := Option.isSome_iff_exists.1 hsome
  have hwas : ∀ {k' d}, (t.put k c').conns k' = some d → ∃ d', t.conns k' = some d' ∧
      d.bgid = d'.bgid ∧ (c'.driving = false ∧ c'.retained = 0 → k' ≠ k) := by
    intro k' d hd
    by_cases hk : k' = k
    · subst hk
      unfold Groups.put dropRing at hd
      split at hd
      · simp at hd
      · rename_i hkeep
        obtain rfl : c' = d := by simpa using hd
        exact ⟨c, hc, hb, fun hdrop => absurd hdrop hkeep⟩
    · exact ⟨d, (put_conns_of_ne hk).symm.trans hd, rfl, fun _ => hk⟩
  have hinj : ∀ {k₁ k₂ d₁ d₂}, (t.put k c').conns k₁ = some d₁ → (t.put k c').conns k₂ = some d₂ →
      d₁.bgid = d₂.bgid → k₁ = k₂ := fun h₁ h₂ he =>
    have ⟨_, hd₁, he₁, _⟩ := hwas h₁
    have ⟨_, hd₂, he₂, _⟩ := hwas h₂
    h.inj hd₁ hd₂ (he₁ ▸ he₂ ▸ he)
  by_cases hdrop : c'.driving = false ∧ c'.retained = 0
  · -- the id goes back to the pool, and was with nobody else
    have hpool : (t.put k c').pool = some (c.bgid :: ids) := by
      simp [Groups.put, dropRing, hdrop, freeBgid, hids, hb]
    have hopened : (t.put k c').opened = t.opened := by simp [Groups.put, dropRing, hdrop]
    have hnodup := h.nodup
    simp only [BgidPool.ids, hids, Option.getD_some] at hfree hnodup
    refine ⟨?_, fun hd => ?_, hinj⟩
    · rw [hpool]
      exact List.nodup_cons.2 ⟨hfree, hnodup⟩
    · obtain ⟨d', hd', he, hne⟩ := hwas hd
      obtain ⟨hout, -, hlt⟩ := h.taken hd'
      simp only [BgidPool.ids, hids, Option.getD_some] at hout
      rw [hpool, he, hopened]
      refine ⟨?_, rfl, hlt⟩
      exact List.not_mem_cons_of_ne_of_not_mem (fun hg => hne hdrop (h.inj hd' hc hg)) hout
  · have hsame : (t.put k c').pool = t.pool ∧ (t.put k c').opened = t.opened := by
      simp [Groups.put, hdrop]
    refine ⟨hsame.1 ▸ h.nodup, fun hd => ?_, hinj⟩
    obtain ⟨d', hd', he, -⟩ := hwas hd
    rw [hsame.1, hsame.2, he]
    exact h.taken hd'

theorem GroupsOk.forConnection (h : GroupsOk t) (registers : Bool) :
    GroupsOk (t.forConnection registers) := by
  have hn := h.nodup
  unfold Groups.forConnection allocBgid
  cases hids : t.pool.ids with
  | nil =>
    refine ⟨by simp [BgidPool.ids], fun hc => ?_, h.inj⟩
    exact ⟨by simp [BgidPool.ids], rfl, (h.taken hc).2.2⟩
  | cons g ids =>
    rw [hids] at hn
    have hout : ∀ {k c}, t.conns k = some c → c.bgid ≠ g ∧ c.bgid ∉ ids := fun hc => by
      simpa [hids, not_or] using (h.taken hc).1
    dsimp only [List.head?_cons, List.tail_cons]
    split
    · have hnew : ∀ {k c}, Function.update t.conns t.opened (some ⟨g, true, none, 0⟩) k = some c →
          k = t.opened ∧ c.bgid = g ∨ k < t.opened ∧ t.conns k = some c := by
        intro k c hc
        by_cases hk : k = t.opened
        · subst hk
          rw [Function.update_self] at hc
          exact .inl ⟨rfl, by rw [← Option.some.inj hc]⟩
        · rw [Function.update_of_ne hk] at hc
          exact .inr ⟨(h.taken hc).2.2, hc⟩
      refine ⟨(List.nodup_cons.1 hn).2, fun {k c} hc => ?_, fun {k k' c c'} hc hc' he => ?_⟩
      · rcases hnew hc with ⟨rfl, hg⟩ | ⟨hlt, hc⟩
        · exact ⟨hg ▸ (List.nodup_cons.1 hn).1, rfl, Nat.lt_succ_self _⟩
        · exact ⟨(hout hc).2, rfl, Nat.lt_succ_of_lt hlt⟩
      · rcases hnew hc with ⟨rfl, hg⟩ | ⟨-, hc⟩ <;> rcases hnew hc' with ⟨rfl, hg'⟩ | ⟨-, hc'⟩
        · rfl
        · exact absurd (he ▸ hg) (hout hc').1
        · exact absurd (he.trans hg') (hout hc).1
        · exact h.inj hc hc' he
    · refine ⟨by simpa [freeBgid, BgidPool.ids] using hn, fun hc => ?_, h.inj⟩
      obtain ⟨hne, hni⟩ := hout hc
      exact ⟨by simp [freeBgid, BgidPool.ids, hne, hni], rfl, (h.taken hc).2.2⟩

theorem Inv.put (h : Inv t) (hc : t.conns k = some c) (hb : c'.bgid = c.bgid)
    (hop : Idle t → ∀ r ∈ t.live, r.conn = k → c'.driving = true → c'.op = some r.key) :
    Inv (t.put k c') := by
  refine ⟨h.groups.put hc hb, fun hidle => ?_⟩
  obtain ⟨hwas, hnone⟩ := idle_put.1 hidle
  have hrecvs := h.recvs hwas
  obtain ⟨hlive, hnext, hslab, hcqes⟩ := put_frame t k c'
  refine ⟨fun r hr => ?_, by rw [hcqes, hnext]; exact hrecvs.keys⟩
  rw [hlive] at hr
  have hok := hrecvs.live r hr
  refine ⟨?_, hnext ▸ hok.lt, hslab ▸ hok.going, hcqes ▸ hok.posted⟩
  by_cases hk : r.conn = k
  · have hbr := hb.trans (hok.of_conn (hk ▸ hc)).1
    by_cases hdrop : c'.driving = false ∧ c'.retained = 0
    · -- the ring would be dropped with this receive live on it
      have hmem : r ∈ t.liveOn c'.bgid := List.mem_filter.2 ⟨hr, by simp [hbr]⟩
      exact absurd (hnone hdrop ▸ hmem) List.not_mem_nil
    · exact ⟨c', by simp [Groups.put, hdrop, hk], hbr, hop hwas r hr hk⟩
  · obtain ⟨d, hd, hrest⟩ := hok.owner
    exact ⟨d, (put_conns_of_ne hk).trans hd, hrest⟩

theorem Inv.slab {slab : Slab} (h : Inv t) (hs : ∀ key, t.slab.Going key → slab.Going key) :
    Inv { t with slab } :=
  ⟨⟨h.groups.nodup, h.groups.taken, h.groups.inj⟩, fun hidle =>
    have hrecvs := h.recvs hidle
    ⟨fun r hr =>
      have hok := hrecvs.live r hr
      ⟨hok.owner, hok.lt, hs _ hok.going, hok.posted⟩, hrecvs.keys⟩⟩

theorem Inv.dropOp (h : Inv t) (op : Option Nat) : Inv (t.dropOp op) := by
  refine h.slab fun key hkey => ?_
  cases op with
  | none => exact hkey
  | some key' => exact hkey.orphan key'

theorem Inv.leave (h : Inv t) (hc : t.conns k = some c) : Inv (t.leave k c) := by
  have hput : Inv (t.put k { c with driving := false, op := none }) :=
    h.put hc rfl fun _ _ _ _ hd => Bool.noConfusion hd
  exact hput.dropOp c.op

theorem idle_leave : Idle (t.leave k c) ↔ Idle t ∧ (c.retained = 0 → t.liveOn c.bgid = []) :=
  idle_put.trans (by simp [liveOn])

/-- A poll of the receive `key` leaves it armed, or finds it through; then the reader arms another one
or the loop ends. -/
theorem fillBid_cases (t : Groups) (k : Nat) (c : RingConn) (key : Nat) :
    ∃ slab : Slab, (∀ key', t.slab.Going key' → slab.Going key') ∧
      (t.fillBid k c key = { t with slab } ∨ ¬ t.slab.Going key ∧
        (t.fillBid k c key = (Groups.put { t with slab } k { c with op := none }).dropOp (some key) ∨
          t.fillBid k c key = Groups.leave { t with slab } k c)) := by
  unfold fillBid
  cases hp : t.slab.pollNext key k with
  | none =>
    refine ⟨t.slab, fun _ h => h, .inr ⟨?_, .inr rfl⟩⟩
    rintro ⟨e, he, -⟩
    simp [Slab.pollNext, he] at hp
  | some p =>
    obtain ⟨polled, done, slab⟩ := p
    refine ⟨slab, fun key' h => ?_, ?_⟩
    · by_cases hk : key' = key
      · subst hk
        exact (h.poll hp).1
      · obtain ⟨e, he, hrest⟩ := h
        exact ⟨e, (Slab.entries_pollNext_of_ne hp hk).trans he, hrest⟩
    · have hgoing := fun h : t.slab.Going key => (h.poll hp).2
      cases polled with
      | pending => exact .inl rfl
      | ended => exact .inr ⟨fun h => by simpa using hgoing h, .inr rfl⟩
      | ready r =>
        have hdata : t.slab.Going key → r.IsData := fun h => by simpa using hgoing h
        dsimp only
        split
        · split
          · exact .inl rfl
          · rename_i hmore
            exact .inr ⟨fun h => hmore (hdata h).2, .inl rfl⟩
        · rename_i hpos
          refine .inr ⟨fun h => hpos (hdata h).1, ?_⟩
          split
          · exact .inl rfl
          · exact .inr rfl

theorem Inv.post {key : Nat} {r : CqeResult} (h : Inv t) (hlive : key ∈ t.live.map (·.key))
    (hr : r.result ≤ 0 → r.more = false) :
    Inv { t with
      cqes := t.cqes ++ [⟨some key, r⟩]
      live := if r.more then t.live else t.live.filter (·.key ≠ key) } := by
  refine ⟨⟨h.groups.nodup, h.groups.taken, h.groups.inj⟩, fun hidle => ?_⟩
  have hrecvs := h.recvs hidle
  refine ⟨fun x hx => ?_, fun q hq key' hkey => ?_⟩
  · have hmem : x ∈ t.live ∧ (x.key = key → r.IsData) := by
      cases hmore : r.more with
      | true =>
        have hpos : 0 < r.result := by
          by_contra hle
          simp [hr (by omega)] at hmore
        exact ⟨by simpa [hmore] using hx, fun _ => ⟨hpos, hmore⟩⟩
      | false =>
        have := List.mem_filter.1 (show x ∈ t.live.filter (·.key ≠ key) by simpa [hmore] using hx)
        exact ⟨this.1, fun he => by simp [he] at this⟩
    have hok := hrecvs.live x hmem.1
    refine ⟨hok.owner, hok.lt, hok.going, fun q hq hkey => ?_⟩
    rcases List.mem_append.1 hq with hq | hq
    · exact hok.posted q hq hkey
    · obtain rfl := List.mem_singleton.1 hq
      exact hmem.2 (Option.some.inj hkey).symm
  · rcases List.mem_append.1 hq with hq | hq
    · exact hrecvs.keys q hq key' hkey
    · obtain rfl := List.mem_singleton.1 hq
      obtain ⟨x, hx, hxk⟩ := List.mem_map.1 hlive
      exact Option.some.inj hkey ▸ hxk ▸ (hrecvs.live x hx).lt

theorem Inv.recvMulti (h : Inv t) (hc : t.conns k = some c) (hop : c.op = none)
    (hd : c.driving = true) : Inv (t.recvMulti k c) := by
  have hput : t.put k { c with op := some t.next } =
      { t with conns := Function.update t.conns k (some { c with op := some t.next }) } := by
    simp [Groups.put, hd]
  have hgroups : GroupsOk (t.put k { c with op := some t.next }) := h.groups.put hc rfl
  rw [hput] at hgroups
  unfold Groups.recvMulti
  rw [hput]
  refine ⟨⟨hgroups.nodup, hgroups.taken, hgroups.inj⟩, fun hidle => ?_⟩
  have hrecvs := h.recvs hidle
  refine ⟨fun r hr => ?_, fun q hq key hkey => Nat.lt_succ_of_lt (hrecvs.keys q hq key hkey)⟩
  rcases List.mem_cons.1 hr with rfl | hr
  · exact ⟨⟨_, Function.update_self .., rfl, fun _ => rfl⟩, Nat.lt_succ_self _,
      ⟨_, Slab.entries_insert_self .., rfl, fun _ h => (by cases h)⟩,
      fun q hq hkey => absurd (hrecvs.keys q hq _ hkey) (Nat.lt_irrefl _)⟩
  · have hok := hrecvs.live r hr
    have hk : r.conn ≠ k := by
      rintro rfl
      simpa [hop] using (hok.of_conn hc).2 hd
    obtain ⟨d, hdc, howns⟩ := hok.owner
    obtain ⟨e, he, hrest⟩ := hok.going
    exact ⟨⟨d, (Function.update_of_ne hk ..).trans hdc, howns⟩, Nat.lt_succ_of_lt hok.lt,
      ⟨e, (Slab.entries_insert_of_ne _ _ (Nat.ne_of_lt hok.lt)).trans he, hrest⟩, hok.posted⟩

theorem of_driven (h : t.driven k = some c) : t.conns k = some c ∧ c.driving = true := by
  simpa [driven, Option.filter_eq_some_iff] using h

/-- The receive of connection `k` is armed: its terminal completion is not posted. -/
def Armed (t : Groups) (k : Nat) : Prop := ∃ r ∈ t.live, r.conn = k

instance (t : Groups) (k : Nat) : Decidable (Armed t k) :=
  inferInstanceAs (Decidable (∃ r ∈ t.live, _))

theorem Inv.liveOn_eq_nil_iff (h : Inv t) (hidle : Idle t) (hc : t.conns k = some c) :
    t.liveOn c.bgid = [] ↔ ¬ t.Armed k := by
  simp only [liveOn, List.filter_eq_nil_iff, decide_eq_true_eq, Armed, not_exists, not_and]
  refine forall₂_congr fun r hr => not_congr ?_
  have hok := (h.recvs hidle).live r hr
  constructor
  · intro hb
    obtain ⟨d, hd, hdb, -⟩ := hok.owner
    exact h.groups.inj hd hc (hdb.trans hb)
  · rintro rfl
    exact (hok.of_conn hc).1.symm

/-- A receive that is not the one its reader polls has ended, and so has one that is through. -/
theorem Inv.no_live (h : Inv t) (hidle : Idle t) (hc : t.conns k = some c) (hd : c.driving = true)
    (hop : ∀ key, c.op = some key → ¬ t.slab.Going key) : t.liveOn c.bgid = [] := by
  rw [h.liveOn_eq_nil_iff hidle hc]
  rintro ⟨r, hr, rfl⟩
  have hok := (h.recvs hidle).live r hr
  exact hop r.key ((hok.of_conn hc).2 hd) hok.going

/-- A ring that goes with the step has no receive armed: neither the one of a loop that ends by a PDU,
nor the one that the end of the loop has cancelled and that a retained payload has outlasted. -/
def Quiet (t : Groups) : Action → Prop
  | .stop k => ∀ c ∈ t.conns k, c.retained = 0 → ¬ t.Armed k
  | .release k => ∀ c ∈ t.conns k, c.driving = false → c.retained = 1 → ¬ t.Armed k
  | .connect _ | .arm .. | .post .. | .reap | .poll _ | .retain _ => True

instance Quiet.decidable (t : Groups) : ∀ a, Decidable (Quiet t a)
  | .stop k => inferInstanceAs (Decidable (∀ c ∈ t.conns k, _ → _))
  | .release k => inferInstanceAs (Decidable (∀ c ∈ t.conns k, _ → _ → _))
  | .connect _ | .arm .. | .post .. | .reap | .poll _ | .retain _ => .isTrue trivial

theorem Inv.forConnection (h : Inv t) (registers : Bool) :
    Inv (t.forConnection registers) ∧ (Idle (t.forConnection registers) ↔ Idle t) := by
  have hrest : ∃ pool conns opened, t.forConnection registers = { t with pool, conns, opened } ∧
      ∀ k c, t.conns k = some c → conns k = some c := by
    unfold Groups.forConnection
    split
    · exact ⟨_, _, _, rfl, fun _ _ hc => hc⟩
    · split
      · refine ⟨_, _, _, rfl, fun k c hc => ?_⟩
        exact (Function.update_of_ne (Nat.ne_of_lt (h.groups.taken hc).2.2) ..).trans hc
      · exact ⟨_, _, _, rfl, fun _ _ hc => hc⟩
  have hgroups := h.groups.forConnection registers
  obtain ⟨pool, conns, opened, heq, hconns⟩ := hrest
  rw [heq] at hgroups ⊢
  refine ⟨⟨hgroups, fun hidle => ⟨fun r hr => ?_, (h.recvs hidle).keys⟩⟩, Iff.rfl⟩
  have hok := (h.recvs hidle).live r hr
  obtain ⟨c, hc, hrest⟩ := hok.owner
  exact ⟨⟨c, hconns _ _ hc, hrest⟩, hok.lt, hok.going, hok.posted⟩

/-- **Every step keeps the invariant**, and what it gives back. -/
theorem Inv.step (h : Inv t) (hstep : t.step a = some t') : Inv t' ∧ (Idle t' ↔ Idle t ∧ Quiet t a) := by
  cases a with
  | connect registers =>
    obtain rfl := Option.some.inj hstep
    exact (h.forConnection registers).imp_right fun hidle => hidle.trans (and_iff_left trivial).symm
  | arm k submits =>
    obtain ⟨c, hc, hstep⟩ := Option.bind_eq_some_iff.1 hstep
    obtain ⟨hop, rfl⟩ := of_guard hstep
    obtain ⟨hc, hd⟩ := of_driven hc
    cases submits with
    | true => exact ⟨h.recvMulti hc hop hd, idle_put.trans (by simp [hd, Quiet])⟩
    | false =>
      refine ⟨h.leave hc,
        idle_leave.trans (and_congr_right fun hidle => ⟨fun _ => trivial, fun _ _ => ?_⟩)⟩
      exact h.no_live hidle hc hd (by simp [hop])
  | post key result =>
    obtain ⟨⟨hlive, hr⟩, rfl⟩ := of_guard hstep
    exact ⟨h.post hlive hr, (and_iff_left trivial).symm⟩
  | reap =>
    obtain rfl := Option.some.inj hstep
    refine ⟨⟨⟨h.groups.nodup, h.groups.taken, h.groups.inj⟩, fun hidle => ?_⟩,
      (and_iff_left trivial).symm⟩
    refine ⟨fun r hr => ?_, fun _ h => (by cases h)⟩
    have hok := (h.recvs hidle).live r hr
    exact ⟨hok.owner, hok.lt, hok.going.reap hok.posted, fun _ h => (by cases h)⟩
  | poll k =>
    obtain ⟨c, hc, hstep⟩ := Option.bind_eq_some_iff.1 hstep
    obtain ⟨key, hop, rfl⟩ := Option.map_eq_some_iff.1 hstep
    obtain ⟨hc, hd⟩ := of_driven hc
    obtain ⟨slab, hs, heq | ⟨hthrough, heq | heq⟩⟩ := fillBid_cases t k c key
    · exact heq ▸ ⟨h.slab hs, (and_iff_left trivial).symm⟩
    · rw [heq]
      have hput : Inv (Groups.put { t with slab } k { c with op := none }) := by
        refine (h.slab hs).put hc rfl fun hidle r hr hk _ => ?_
        have hok := (h.recvs hidle).live r hr
        obtain rfl : key = r.key := Option.some.inj (hop.symm.trans ((hok.of_conn (hk ▸ hc)).2 hd))
        exact absurd hok.going hthrough
      exact ⟨hput.dropOp _, idle_put.trans (by simp [hd, Quiet, Idle])⟩
    · rw [heq]
      refine ⟨(h.slab hs).leave hc,
        idle_leave.trans (and_congr_right fun hidle => ⟨fun _ => trivial, fun _ _ => ?_⟩)⟩
      refine h.no_live hidle hc hd fun key' hkey' => ?_
      rwa [← Option.some.inj (hop.symm.trans hkey')]
  | retain k =>
    obtain ⟨c, hc, rfl⟩ := Option.map_eq_some_iff.1 hstep
    obtain ⟨hc, hd⟩ := of_driven hc
    refine ⟨h.put hc rfl fun hidle r hr hk => ?_, idle_put.trans (by simp [Quiet])⟩
    exact (((h.recvs hidle).live r hr).of_conn (c := c) (hk ▸ hc)).2
  | release k =>
    obtain ⟨c, hc, hstep⟩ := Option.bind_eq_some_iff.1 hstep
    obtain ⟨hpos, rfl⟩ := of_guard hstep
    have hlast : c.retained - 1 = 0 ↔ c.retained = 1 := by omega
    refine ⟨h.put hc rfl fun hidle r hr hk => ?_, idle_put.trans (and_congr_right fun hidle => ?_)⟩
    · exact (((h.recvs hidle).live r hr).of_conn (c := c) (hk ▸ hc)).2
    · simp [Quiet, hc, hlast, h.liveOn_eq_nil_iff hidle hc]
  | stop k =>
    obtain ⟨c, hc, rfl⟩ := Option.map_eq_some_iff.1 hstep
    obtain ⟨hc, -⟩ := of_driven hc
    refine ⟨h.leave hc, idle_leave.trans (and_congr_right fun hidle => ?_)⟩
    simp [Quiet, hc, h.liveOn_eq_nil_iff hidle hc]

theorem inv_init : Inv init :=
  ⟨⟨List.nodup_range, fun h => (by cases h), fun h => (by cases h)⟩,
    fun _ => ⟨fun _ h => (by cases h), fun _ h => (by cases h)⟩⟩

/-- **No group comes back too early** in the runs whose steps are quiet, and in no other; as long as
none has, a live receive is one of the connection that has its group. -/
theorem returned_idle_iff {as : List Action} (h : runFrom step init as = some t) :
    (Idle t ↔ StepsOk step Quiet init as) ∧
      (Idle t → ∀ r ∈ t.live, ∀ k c, t.conns k = some c → c.bgid = r.bgid → k = r.conn) := by
  constructor
  · rw [runFrom_good_iff (fun h hs => h.step hs) inv_init h]
    exact and_iff_right fun _ h => (by cases h)
  · intro hidle r hr k c hc hb
    have hinv : Inv t := @runFrom_invariant _ _ step Inv (fun h hs => (h.step hs).1) as _ _ inv_init h
    obtain ⟨d, hd, hdb, -⟩ := ((hinv.recvs hidle).live r hr).owner
    exact hinv.groups.inj hc hd (hb.trans hdb.symm)

/-- The peer closes while a slot retains a payload; the next connection gets the same id. -/
def closedByPeer : List Action :=
  [.connect true, .arm 0 true, .post 0 ⟨4096, true⟩, .reap, .poll 0, .retain 0, .post 0 ⟨0, false⟩, .reap,
    .poll 0, .release 0, .connect true, .arm 1 true]

theorem closedByPeer_idle : ∃ t, runFrom step init closedByPeer = some t ∧
    t.returned = [(0, [])] ∧ t.live = [⟨1, 0, 1⟩] ∧ Idle t := by
  have hrun : ∃ t, runFrom step init closedByPeer = some t ∧
      t.returned = [(0, [])] ∧ t.live = [⟨1, 0, 1⟩] := ⟨_, rfl, rfl, rfl⟩
  obtain ⟨t, ht, hreturned⟩ := hrun
  exact ⟨t, ht, hreturned.1, hreturned.2, (returned_idle_iff ht).1.2 (by decide)⟩

/-- A bad PDU ends the loop while its receive is armed; the next connection gets the group of that
receive. -/
theorem protocol_error_shares_group : ∃ t, runFrom step init
    [.connect true, .arm 0 true, .post 0 ⟨128, true⟩, .reap, .poll 0, .stop 0, .connect true,
      .arm 1 true] =
      some t ∧ t.returned = [(0, [⟨0, 0, 0⟩])] ∧ t.live = [⟨1, 0, 1⟩, ⟨0, 0, 0⟩] :=
  ⟨_, rfl, rfl, rfl⟩

end Groups

end Ioutgt.Uring
