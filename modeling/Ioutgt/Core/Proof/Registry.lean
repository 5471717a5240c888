import Mathlib.Data.List.Nodup
import Ioutgt.Core.Registry

/-!
# The registry over every history of calls

`History` remembers, beside the registry, who created each controller and who added its queues.

* `allocate_spec`, `installIoQueue_spec`, `remove_spec`: what each call does.
* `History.Ok`: what holds of every live controller.
* `History.Ok.call`: every call keeps it, and none panics.
-/

namespace Ioutgt.Core

open Lib

variable {id : Nat} {h : History}

/-! ## Slices -/

namespace Slice

def size (s : Slice) : Nat := s.max - s.min + 1

def Has (s : Slice) (id : Nat) : Prop := s.min ≤ id ∧ id ≤ s.max

/-- The id looked at `offset` places after `start`, cyclically. -/
def nth (s : Slice) (start offset : Nat) : Nat := s.min + (start - s.min + offset) % s.size

theorem size_pos (s : Slice) : 0 < s.size := Nat.succ_pos _

theorem nth_has (s : Slice) (start offset : Nat) : s.Has (s.nth start offset) := by
  have hlt := Nat.mod_lt (start - s.min + offset) s.size_pos
  have hv := s.valid
  unfold Has nth
  unfold size at hlt ⊢
  omega

theorem exists_nth (s : Slice) (start : Nat) (h : s.Has id) :
    ∃ offset < s.size, s.nth start offset = id := by
  have hid : id - s.min < s.size := by unfold Has at h; unfold size; omega
  -- the offset that is still missing from `start` to `id`, one turn added
  refine ⟨(id - s.min + (s.size - (start - s.min) % s.size)) % s.size,
    Nat.mod_lt _ s.size_pos, ?_⟩
  have hb := Nat.mod_lt (start - s.min) s.size_pos
  have hmod : (start - s.min + (id - s.min + (s.size - (start - s.min) % s.size)) % s.size) %
      s.size = id - s.min := by
    rw [Nat.add_mod_mod, ← Nat.mod_add_mod]
    rw [show (start - s.min) % s.size + (id - s.min + (s.size - (start - s.min) % s.size)) =
      id - s.min + s.size by omega, Nat.add_mod_right, Nat.mod_eq_of_lt hid]
  unfold nth
  rw [hmod]
  unfold Has at h
  omega

end Slice

/-! ## What each call does -/

namespace Registry

variable {ε : Type}

theorem span_ok (r : Registry) : (r.span : Checked ε Nat) = .ok r.slice.size := by
  have hv := r.slice.valid
  unfold span
  rw [Checked.sub_ok hv.2.1, Checked.bind_ok, Checked.add_ok (by unfold cntlidMax at hv; omega)]
  rfl

theorem candidate_ok (r : Registry) {start offset : Nat} (hs : r.slice.Has start)
    (ho : offset < r.slice.size) :
    (r.candidate r.slice.size start offset : Checked ε Nat) = .ok (r.slice.nth start offset) := by
  have hv := r.slice.valid
  have hlt := Nat.mod_lt (start - r.slice.min + offset) r.slice.size_pos
  have hsize : r.slice.size = r.slice.max - r.slice.min + 1 := rfl
  unfold Slice.Has at hs
  unfold cntlidMax at hv
  unfold candidate
  rw [Checked.sub_ok hs.1, Checked.bind_ok, Checked.add_ok (by omega), Checked.bind_ok,
    Checked.require_ok _ (by omega), Checked.bind_ok]
  dsimp only
  rw [Checked.require_ok _ (by omega), Checked.bind_ok, Checked.add_ok (by omega)]
  rfl

/-- The scan takes the first vacant id, or finds every id it looks at taken. -/
theorem scan_spec (r : Registry) (q : Request) {start : Nat} (hs : r.slice.Has start)
    (offsets : List Nat) (hos : ∀ o ∈ offsets, o < r.slice.size) :
    ((∀ o ∈ offsets, (r.controllers (r.slice.nth start o)).isSome) ∧
      (r.scan q r.slice.size start offsets : Checked ε _) = .ok (none, r)) ∨
    ∃ id, r.slice.Has id ∧ r.controllers id = none ∧
      (r.scan q r.slice.size start offsets : Checked ε _) = .ok (some id, r.insert q id) := by
  induction offsets with
  | nil => exact .inl ⟨by simp, rfl⟩
  | cons o rest ih =>
    have hc := candidate_ok (ε := ε) r hs (hos o (by simp))
    have hstep := ih fun o ho => hos o (by simp [ho])
    simp only [scan, hc, Checked.bind_ok]
    cases hr : r.controllers (r.slice.nth start o) with
    | none => exact .inr ⟨_, r.slice.nth_has start o, hr, rfl⟩
    | some e => simpa [hr] using hstep

theorem allocate_spec (r : Registry) (q : Request) :
    ((∀ id, r.slice.Has id → (r.controllers id).isSome) ∧
      (r.allocate q : Checked ε _) = .ok (none, r)) ∨
    ∃ id, r.slice.Has id ∧ r.controllers id = none ∧
      (r.allocate q : Checked ε _) = .ok (some id, r.insert q id) := by
  have hv := r.slice.valid
  have hstart : r.slice.Has (Nat.max r.slice.min (Nat.min r.nextCntlid r.slice.max)) :=
    ⟨Nat.le_max_left .., Nat.max_le.2 ⟨hv.2.1, Nat.min_le_right ..⟩⟩
  have hscan := scan_spec (ε := ε) r q hstart (List.range r.slice.size) (by simp)
  unfold allocate
  rw [span_ok, Checked.bind_ok]
  refine hscan.imp_left fun ⟨hall, hnone⟩ => ⟨fun id hid => ?_, hnone⟩
  obtain ⟨o, ho, hnth⟩ := r.slice.exists_nth _ hid
  exact hnth ▸ hall o (List.mem_range.2 ho)

/-- `install_io_queue` leaves the registry alone, or puts a fresh queue on the caller's own
controller. -/
theorem installIoQueue_spec (r : Registry) (cntlid : Nat) (hostnqn : Nqn) (queue : QueueInfo) :
    (∃ e, r.installIoQueue cntlid hostnqn queue = (.error e, r)) ∨
    ∃ entry, r.controllers cntlid = some entry ∧ entry.hostnqn = hostnqn ∧
      1 ≤ queue.qid ∧ queue.qid ≤ entry.maxQid ∧ (∀ q ∈ entry.queues, q.qid ≠ queue.qid) ∧
      r.installIoQueue cntlid hostnqn queue =
        (.ok { entry with queues := entry.queues ++ [queue] },
          r.setEntry cntlid { entry with queues := entry.queues ++ [queue] }) := by
  unfold installIoQueue
  cases hc : r.controllers cntlid with
  | none => exact .inl ⟨_, rfl⟩
  | some entry =>
    dsimp only
    by_cases hhost : entry.hostnqn = hostnqn
    · by_cases hqid : queue.qid = 0 ∨ queue.qid > entry.maxQid
      · exact .inl ⟨_, by rw [if_neg (by simpa using hhost), if_pos hqid]⟩
      · by_cases hany : entry.queues.any (·.qid == queue.qid)
        · exact .inl ⟨_, by rw [if_neg (by simpa using hhost), if_neg hqid, if_pos hany]⟩
        · refine .inr ⟨entry, rfl, hhost, by omega, by omega, ?_, ?_⟩
          · simpa using hany
          · rw [if_neg (by simpa using hhost), if_neg hqid, if_neg hany]
    · exact .inl ⟨_, by rw [if_pos hhost]⟩

theorem remove_spec (r : Registry) (cntlid : Nat) :
    (r.controllers cntlid = none ∧ r.remove cntlid = (none, r)) ∨
    ∃ entry, r.controllers cntlid = some entry ∧
      r.remove cntlid = (some entry, r.dropEntry cntlid) := by
  unfold remove
  cases hc : r.controllers cntlid with
  | none => exact .inl ⟨rfl, rfl⟩
  | some entry => exact .inr ⟨entry, rfl, rfl⟩

end Registry

/-! ## Histories -/

open Registry

/-- A registry with what the accepted calls were given. -/
structure History where
  registry : Registry
  creator : Nat → Nqn
  admin : Nat → QueueInfo
  added : Nat → List (Nqn × QueueInfo)

namespace History

variable {ε : Type}

def start (slice : Slice) : History where
  registry := .ofSlice slice
  creator := fun _ => []
  admin := fun _ => { qid := 0, sqsize := 0, tid := 0, cpus := [], peer := [] }
  added := fun _ => []

def record (h : History) : Call → Answer → Registry → History
  | .allocate q, .allocated (some id), r =>
    { registry := r, creator := Function.update h.creator id q.hostnqn,
      admin := Function.update h.admin id q.adminQueue, added := Function.update h.added id [] }
  | .installIoQueue id hostnqn queue, .installed (.ok _), r =>
    { h with registry := r, added := Function.update h.added id (h.added id ++ [(hostnqn, queue)]) }
  | _, _, r => { h with registry := r }

def call (h : History) (c : Call) : Checked ε (Answer × History) := do
  let (a, r) ← h.registry.call c
  return (a, h.record c a r)

def run (h : History) (cs : List Call) : Checked ε History :=
  cs.foldlM (fun h c => (·.2) <$> h.call c) h

structure EntryOk (h : History) (id : Nat) (e : ControllerEntry) : Prop where
  slice : h.registry.slice.Has id
  cntlid : e.cntlid = id
  host : e.hostnqn = h.creator id
  queues : e.queues = h.admin id :: (h.added id).map (·.2)
  adders : ∀ a ∈ h.added id, a.1 = h.creator id
  range : ∀ a ∈ h.added id, 1 ≤ a.2.qid ∧ a.2.qid ≤ e.maxQid
  distinct : ((h.added id).map (·.2.qid)).Nodup

def Ok (h : History) : Prop := ∀ id e, h.registry.controllers id = some e → h.EntryOk id e

theorem start_ok (slice : Slice) : (start slice).Ok := fun _ _ he => by cases he

theorem Ok.cntlid_inj (hok : h.Ok) {i j : Nat} {e e' : ControllerEntry}
    (hi : h.registry.controllers i = some e) (hj : h.registry.controllers j = some e')
    (hid : e.cntlid = e'.cntlid) : i = j :=
  calc i = e.cntlid := (hok i e hi).cntlid.symm
    _ = e'.cntlid := hid
    _ = j := (hok j e' hj).cntlid

/-! ### One call -/

theorem EntryOk.frame {h' : History} {e : ControllerEntry} (hok : h.EntryOk id e)
    (hs : h'.registry.slice = h.registry.slice) (hc : h'.creator id = h.creator id)
    (ha : h'.admin id = h.admin id) (hd : h'.added id = h.added id) : h'.EntryOk id e where
  slice := hs ▸ hok.slice
  cntlid := hok.cntlid
  host := by rw [hc, hok.host]
  queues := by rw [ha, hd, hok.queues]
  adders := by rw [hc, hd]; exact hok.adders
  range := by rw [hd]; exact hok.range
  distinct := by rw [hd]; exact hok.distinct

theorem Ok.allocated (hok : h.Ok) (q : Request) (hid : h.registry.slice.Has id) :
    (h.record (.allocate q) (.allocated (some id)) (h.registry.insert q id)).Ok := by
  intro i e he
  by_cases hi : i = id
  · subst hi
    obtain rfl : q.entry i h.registry.nextTraffic = e := by
      simpa [record, Registry.insert] using he
    refine ⟨hid, rfl, ?_, ?_, ?_, ?_, ?_⟩ <;> simp [record, Request.entry]
  · have he' : h.registry.controllers i = some e := by
      simpa [record, Registry.insert, Function.update_of_ne hi] using he
    exact (hok i e he').frame rfl (Function.update_of_ne hi ..) (Function.update_of_ne hi ..)
      (Function.update_of_ne hi ..)

theorem Ok.installed (hok : h.Ok) {hostnqn : Nqn} {queue : QueueInfo} {entry : ControllerEntry}
    (he : h.registry.controllers id = some entry) (hhost : entry.hostnqn = hostnqn)
    (hpos : 1 ≤ queue.qid) (hmax : queue.qid ≤ entry.maxQid)
    (hfresh : ∀ q ∈ entry.queues, q.qid ≠ queue.qid) (a : ControllerEntry) :
    (h.record (.installIoQueue id hostnqn queue) (.installed (.ok a))
      (h.registry.setEntry id { entry with queues := entry.queues ++ [queue] })).Ok := by
  have hold := hok id entry he
  intro i e hie
  by_cases hi : i = id
  · subst hi
    obtain rfl : { entry with queues := entry.queues ++ [queue] } = e := by
      simpa [record, setEntry] using hie
    have hadded : ∀ a ∈ h.added i, a.2.qid ≠ queue.qid := fun a ha =>
      hfresh a.2 (hold.queues ▸ List.mem_cons_of_mem _ (List.mem_map_of_mem ha))
    refine ⟨hold.slice, hold.cntlid, hold.host, ?_, ?_, ?_, ?_⟩
    · simp [record, hold.queues]
    · simpa [record, or_imp, forall_and, ← hold.host, hhost] using hold.adders
    · simpa [record, or_imp, forall_and, hpos, hmax] using hold.range
    · simp only [record, Function.update_self, List.map_append]
      refine hold.distinct.append (List.nodup_singleton _) fun qid hold hnew => ?_
      obtain ⟨a, ha, rfl⟩ := List.mem_map.1 hold
      exact hadded a ha (by simpa using hnew)
  · have hie' : h.registry.controllers i = some e := by
      simpa [record, setEntry, Function.update_of_ne hi] using hie
    exact (hok i e hie').frame rfl rfl rfl (Function.update_of_ne hi ..)

theorem Ok.removed (hok : h.Ok) (id : Nat) (e : ControllerEntry) :
    (h.record (.remove id) (.removed (some e)) (h.registry.dropEntry id)).Ok := by
  intro i e' he
  by_cases hi : i = id
  · subst hi
    simp [record, dropEntry] at he
  · have hlive : h.registry.controllers i = some e' := by
      simpa [record, dropEntry, Function.update_of_ne hi] using he
    exact (hok i e' hlive).frame rfl rfl rfl rfl

/-- What a call to the registry comes to. -/
structure Answered (h : History) (c : Call) (a : Answer) (h' : History) : Prop where
  slice : h'.registry.slice = h.registry.slice
  ok : h'.Ok
  refused : a.Refused → h'.registry = h.registry

theorem call_of {c : Call} {a : Answer} {r : Registry}
    (hc : (h.registry.call c : Checked ε _) = .ok (a, r)) :
    (h.call c : Checked ε _) = .ok (a, h.record c a r) := by
  unfold History.call
  rw [hc]
  rfl

theorem Ok.call (hok : h.Ok) (c : Call) :
    ∃ a h', (h.call c : Checked ε _) = .ok (a, h') ∧ h.Answered c a h' := by
  cases c with
  | allocate q =>
    obtain ⟨-, hall⟩ | ⟨id, hid, -, hall⟩ := allocate_spec (ε := ε) h.registry q
    · exact ⟨.allocated none, h, call_of (by rw [Registry.call, hall]; rfl), rfl, hok, fun _ => rfl⟩
    · refine ⟨_, _, call_of (by rw [Registry.call, hall]; rfl), rfl, hok.allocated q hid, ?_⟩
      exact fun hr => by cases hr
  | installIoQueue id hostnqn queue =>
    obtain ⟨e, hins⟩ | ⟨entry, he, hhost, hpos, hmax, hfresh, hins⟩ :=
      h.registry.installIoQueue_spec id hostnqn queue
    · exact ⟨.installed (.error e), h, call_of (by rw [Registry.call, hins]; rfl), rfl, hok,
        fun _ => rfl⟩
    · refine ⟨_, _, call_of (by rw [Registry.call, hins]; rfl), rfl,
        hok.installed he hhost hpos hmax hfresh _, ?_⟩
      exact fun ⟨e, hr⟩ => by cases hr
  | remove id =>
    obtain ⟨-, hrem⟩ | ⟨entry, -, hrem⟩ := h.registry.remove_spec id
    · exact ⟨.removed none, h, call_of (by rw [Registry.call, hrem]; rfl), rfl, hok, fun _ => rfl⟩
    · refine ⟨.removed (some entry), _, call_of (r := h.registry.dropEntry id)
        (by rw [Registry.call, hrem]; rfl), rfl, hok.removed id entry, ?_⟩
      exact fun hr => by cases hr

/-! ### Every history -/

theorem run_ok (slice : Slice) (cs : List Call) :
    ∃ h : History, ((start slice).run cs : Checked ε _) = .ok h ∧ h.registry.slice = slice ∧ h.Ok := by
  refine @Checked.foldlM_invariant ε _ _ _ (fun h : History => h.registry.slice = slice ∧ h.Ok)
    ?_ cs _ ⟨rfl, start_ok slice⟩
  intro h c ⟨hs, hok⟩
  obtain ⟨a, h', hc, hans⟩ := hok.call (ε := ε) c
  exact ⟨h', by rw [hc]; rfl, hans.slice.trans hs, hans.ok⟩

/-- `allocate` gives no id exactly when every id of the slice is live, and its cursor does not
wrap. -/
theorem allocate_answer (h : History) (q : Request) :
    ∃ got h', (h.call (.allocate q) : Checked ε _) = .ok (.allocated got, h') ∧
      (got = none ↔ ∀ id, h.registry.slice.Has id → h.registry.contains id) ∧
      (∀ id, got = some id → h'.registry.nextCntlid = id + 1) := by
  obtain ⟨hfull, hall⟩ | ⟨id, hid, hfree, hall⟩ := allocate_spec (ε := ε) h.registry q
  · exact ⟨none, _, call_of (by rw [Registry.call, hall]; rfl), by simpa [contains] using hfull,
      by simp⟩
  · refine ⟨some id, _, call_of (by rw [Registry.call, hall]; rfl), ?_, ?_⟩
    · simp only [reduceCtorEq, false_iff]
      intro hfull
      simpa [contains, hfree] using hfull id hid
    · rintro _ ⟨⟩
      have hv := h.registry.slice.valid
      have hlt : id + 1 < 2 ^ 16 := by
        have := hid.2
        unfold cntlidMax at hv
        omega
      exact Nat.mod_eq_of_lt hlt

end History

end Ioutgt.Core
