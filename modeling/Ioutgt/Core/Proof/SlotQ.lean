import Ioutgt.Core.SlotQ
import Ioutgt.Lib.Tally

/-!
# The slot array

* `Wf`: the freelist holds the free slots, each once, and the counter counts the executing ones.
* `Wf.claimTag`, `Wf.put`, `Wf.awaitCommand`, `Wf.beginRespond`, `Wf.releaseTag`: the operations
  keep it and, called in the state they ask for, do not panic.
-/

namespace Ioutgt.Core

open Lib

def Slot.isExecuting {C : Type} (s : Slot C) : Bool := s.state == .executing

namespace SlotArray

variable {C ε : Type} {a : SlotArray C} {t : Nat} {s : Slot C}

structure Wf (a : SlotArray C) : Prop where
  free : ∀ t, t ∈ a.freeTags ↔ t < a.nslots ∧ (a.slots t).state = .free
  nodup : a.freeTags.Nodup
  executing : a.executing = tally a.nslots Slot.isExecuting a.slots

theorem slot_ok (h : t < a.nslots) : (a.slot t : Checked ε (Slot C)) = .ok (a.slots t) := if_pos h

@[simp] theorem put_self (a : SlotArray C) (t : Nat) (s : Slot C) : (a.put t s).slots t = s := by
  simp [put]

theorem put_other (a : SlotArray C) {t u : Nat} (s : Slot C) (h : u ≠ t) :
    (a.put t s).slots u = a.slots u := by simp [put, h]

@[simp] theorem put_nslots (a : SlotArray C) (t : Nat) (s : Slot C) :
    (a.put t s).nslots = a.nslots := rfl

@[simp] theorem put_freeTags (a : SlotArray C) (t : Nat) (s : Slot C) :
    (a.put t s).freeTags = a.freeTags := rfl

theorem Wf.new (n : Nat) (init : C) : (SlotArray.new n init).Wf where
  free := by simp [SlotArray.new, Slot.new]
  nodup := List.nodup_range
  executing := by
    have h : ∀ k, tally k Slot.isExecuting (fun _ => Slot.new init) = 0 := by
      intro k
      induction k with
      | zero => rfl
      | succ k ih =>
        rw [tally, ih]
        rfl
    exact (h n).symm

theorem put_put (a : SlotArray C) (t : Nat) (s s' : Slot C) : (a.put t s).put t s' = a.put t s' := by
  simp [put]

theorem Wf.put (h : a.Wf) (ht : t < a.nslots) {n : Nat} (hold : (a.slots t).state ≠ .free)
    (hnew : s.state ≠ .free)
    (hn : n + (if (a.slots t).isExecuting then 1 else 0) = a.executing + if s.isExecuting then 1 else 0) :
    ({ a with executing := n }.put t s).Wf where
  free := by
    intro u
    by_cases hu : u = t
    · subst hu
      have := h.free u
      simp only [put_freeTags, put_self, put_nslots]
      constructor
      · exact fun hm => absurd (this.1 hm).2 hold
      · exact fun hm => absurd hm.2 hnew
    · rw [put_other _ _ hu]
      exact h.free u
  nodup := h.nodup
  executing := by
    have := tally_update Slot.isExecuting a.slots t s ht
    rw [← h.executing] at this
    show n = tally a.nslots Slot.isExecuting (Function.update a.slots t s)
    omega

theorem Wf.put_same (h : a.Wf) (ht : t < a.nslots) (hs : s.state = (a.slots t).state) :
    (a.put t s).Wf where
  free := by
    intro u
    by_cases hu : u = t
    · subst hu
      rw [put_self, hs]
      exact h.free u
    · rw [put_other _ _ hu]
      exact h.free u
  nodup := h.nodup
  executing := by
    have := tally_update Slot.isExecuting a.slots t s ht
    rw [← h.executing, Slot.isExecuting, Slot.isExecuting, hs] at this
    show a.executing = tally a.nslots Slot.isExecuting (Function.update a.slots t s)
    omega

def claimed (s : Slot C) : Slot C := { s with state := .receiving, dataLen := 0, recvOffset := 0 }

theorem Wf.claimTag (h : a.Wf) :
    (a.freeTags = [] ∧ (a.claimTag : Checked ε _) = .ok none) ∨
      ∃ t rest, a.freeTags = t :: rest ∧ t < a.nslots ∧ (a.slots t).state = .free ∧
        (a.claimTag : Checked ε _)
          = .ok (some (t, { a with freeTags := rest }.put t (claimed (a.slots t)))) ∧
        ({ a with freeTags := rest }.put t (claimed (a.slots t))).Wf := by
  cases hf : a.freeTags with
  | nil => exact .inl ⟨rfl, by rw [SlotArray.claimTag, hf]⟩
  | cons t rest =>
    have hnd := h.nodup
    rw [hf] at hnd
    obtain ⟨hnot, hrest⟩ := List.nodup_cons.1 hnd
    obtain ⟨hlt, hst⟩ := (h.free t).1 (by rw [hf]; exact List.mem_cons_self)
    refine .inr ⟨t, rest, rfl, hlt, hst, ?_, ?_, hrest, ?_⟩
    · rw [SlotArray.claimTag, hf]
      simp only [slot_ok hlt, Checked.bind_ok, Checked.require_ok _ hst]
      rfl
    · intro u
      by_cases hu : u = t
      · subst hu
        simp [claimed, hnot]
      · rw [put_other _ _ hu, put_freeTags, put_nslots]
        have := h.free u
        rw [hf] at this
        simpa [hu] using this
    · have := tally_update Slot.isExecuting a.slots t (claimed (a.slots t)) hlt
      rw [← h.executing, Slot.isExecuting, Slot.isExecuting, hst] at this
      show a.executing = tally a.nslots Slot.isExecuting (Function.update a.slots t _)
      simpa [claimed] using this.symm

theorem submit_ok (ht : t < a.nslots) (hs : (a.slots t).state = .receiving) (cmd : C) :
    (a.submit t cmd : Checked ε _) = .ok (a.put t { a.slots t with cmd, state := .ready }) := by
  rw [submit, slot_ok ht, Checked.bind_ok, Checked.require_ok _ hs]
  rfl

theorem awaitCommand_ok (ht : t < a.nslots) (hs : (a.slots t).state = .ready) :
    (a.awaitCommand t : Checked ε _) = .ok (some ((a.slots t).cmd,
      { a with executing := a.executing + 1 }.put t { a.slots t with state := .executing })) := by
  rw [awaitCommand, slot_ok ht, Checked.bind_ok, if_pos hs]
  rfl

theorem respondReceiving_ok (ht : t < a.nslots) (hs : (a.slots t).state = .receiving) :
    (a.respondReceiving t : Checked ε _)
      = .ok (a.put t { a.slots t with state := .responding }) := by
  rw [respondReceiving, slot_ok ht, Checked.bind_ok, Checked.require_ok _ hs]
  rfl

theorem Wf.executing_pos (h : a.Wf) (ht : t < a.nslots) (hs : (a.slots t).state = .executing) :
    1 ≤ a.executing := by
  rw [h.executing]
  exact tally_pos ht (by simp [Slot.isExecuting, hs])

theorem Wf.beginRespond_ok (h : a.Wf) (ht : t < a.nslots)
    (hs : (a.slots t).state = .executing) :
    (a.beginRespond t : Checked ε _) = .ok ({ a with executing := a.executing - 1 }.put t
      { a.slots t with state := .responding }) := by
  rw [beginRespond, slot_ok ht, Checked.bind_ok, Checked.require_ok _ hs, Checked.bind_ok,
    Checked.sub_ok (h.executing_pos ht hs)]
  rfl

def released (a : SlotArray C) (t : Nat) : SlotArray C :=
  { a with freeTags := t :: a.freeTags }.put t { a.slots t with data := .empty, state := .free }

theorem releaseTag_ok (ht : t < a.nslots) (hs : (a.slots t).state = .responding) :
    (a.releaseTag t : Checked ε _) = .ok ((a.slots t).data, a.released t) := by
  rw [releaseTag, slot_ok ht, Checked.bind_ok, Checked.require_ok _ hs]
  rfl

theorem Wf.released (h : a.Wf) (ht : t < a.nslots) (hs : (a.slots t).state = .responding) :
    (a.released t).Wf where
  free := by
    intro u
    by_cases hu : u = t
    · subst hu
      simp [SlotArray.released, ht]
    · rw [SlotArray.released, put_other _ _ hu]
      simpa [hu] using h.free u
  nodup := by
    refine List.nodup_cons.2 ⟨fun hm => ?_, h.nodup⟩
    have := ((h.free t).1 hm).2
    rw [hs] at this
    cases this
  executing := by
    have := tally_update Slot.isExecuting a.slots t
      { a.slots t with data := .empty, state := .free } ht
    rw [← h.executing, Slot.isExecuting, Slot.isExecuting, hs] at this
    show a.executing = tally a.nslots Slot.isExecuting (Function.update a.slots t _)
    simpa using this.symm

/-! ## What an operation that goes through has done -/

structure Moved (a a' : SlotArray C) (t : Nat) (st : SlotState) (s : Slot C) : Prop where
  lt : t < a.nslots
  was : (a.slots t).state = st
  slots : a'.slots = Function.update a.slots t s
  nslots : a'.nslots = a.nslots
  /-- A claimed tag was the top of the freelist, and a released one goes there. -/
  tags : (if st = .free then [t] else []) ++ a'.freeTags
    = (if s.state = .free then [t] else []) ++ a.freeTags
  wf : a.Wf → a'.Wf

variable {a' : SlotArray C} {cmd : C} {st : SlotState}

theorem Moved.put {n : Nat} (ht : t < a.nslots) (hst : (a.slots t).state = st) (hold : st ≠ .free)
    (hnew : s.state ≠ .free)
    (hn : n + (if (a.slots t).isExecuting then 1 else 0) = a.executing + if s.isExecuting then 1 else 0) :
    Moved a ({ a with executing := n }.put t s) t st s :=
  ⟨ht, hst, rfl, rfl, by simp [hold, hnew], fun hw => hw.put ht (hst ▸ hold) hnew hn⟩

theorem Moved.of_put {v : Slot C} (ht : t < a.nslots) (hv : v.state = (a.slots t).state)
    (h : Moved (a.put t v) a' t st s) : Moved a a' t st s where
  lt := ht
  was := by
    rw [← hv, ← h.was, put_self]
  slots := by
    rw [h.slots]
    exact Function.update_idem ..
  nslots := h.nslots
  tags := h.tags
  wf := fun hw => h.wf (hw.put_same ht hv)

theorem slot_eq_ok (h : (a.slot t : Checked ε _) = .ok s) : t < a.nslots ∧ a.slots t = s := by
  unfold slot at h
  split at h
  · exact ⟨‹_›, Except.ok.inj h⟩
  · cases h

theorem of_slot {β : Type} {st : SlotState} {e : Panic} {f : Slot C → Checked ε β} {r : β}
    (h : (a.slot t >>= fun s => Checked.require (s.state = st) e >>= fun _ => f s) = .ok r) :
    t < a.nslots ∧ (a.slots t).state = st ∧ f (a.slots t) = .ok r := by
  obtain ⟨s, hs, h⟩ := Checked.bind_eq_ok.1 h
  obtain ⟨hlt, rfl⟩ := slot_eq_ok hs
  obtain ⟨u, hst, h⟩ := Checked.bind_eq_ok.1 h
  exact ⟨hlt, Checked.require_eq_ok.1 hst, h⟩

theorem submit_moved (h : (a.submit t cmd : Checked ε _) = .ok a') :
    Moved a a' t .receiving { a.slots t with cmd, state := .ready } := by
  obtain ⟨hlt, hst, h⟩ := of_slot h
  obtain rfl := Except.ok.inj h
  exact .put hlt hst (by simp) (by simp) (by simp [Slot.isExecuting, hst])

theorem respondReceiving_moved (h : (a.respondReceiving t : Checked ε _) = .ok a') :
    Moved a a' t .receiving { a.slots t with state := .responding } := by
  obtain ⟨hlt, hst, h⟩ := of_slot h
  obtain rfl := Except.ok.inj h
  exact .put hlt hst (by simp) (by simp) (by simp [Slot.isExecuting, hst])

theorem beginRespond_moved (h : (a.beginRespond t : Checked ε _) = .ok a') :
    Moved a a' t .executing { a.slots t with state := .responding } := by
  obtain ⟨hlt, hst, h⟩ := of_slot h
  obtain ⟨n, hn, h⟩ := Checked.bind_eq_ok.1 h
  obtain rfl := Except.ok.inj h
  refine ⟨hlt, hst, rfl, rfl, by simp, fun hw => hw.put hlt (by simp [hst]) (by simp) ?_⟩
  have hpos := hw.executing_pos hlt hst
  obtain rfl := Except.ok.inj ((Checked.sub_ok hpos).symm.trans hn)
  simp only [Slot.isExecuting, hst]
  simp
  omega

theorem awaitCommand_moved {r : C × SlotArray C}
    (h : (a.awaitCommand t : Checked ε _) = .ok (some r)) :
    Moved a r.2 t .ready { a.slots t with state := .executing } := by
  obtain ⟨s, hs, h⟩ := Checked.bind_eq_ok.1 h
  obtain ⟨hlt, rfl⟩ := slot_eq_ok hs
  split at h
  · rename_i hst
    obtain rfl := Option.some.inj (Except.ok.inj h)
    exact .put hlt hst (by simp) (by simp) (by simp [Slot.isExecuting, hst])
  · cases h

theorem releaseTag_moved {r : SlotData × SlotArray C} (h : (a.releaseTag t : Checked ε _) = .ok r) :
    Moved a r.2 t .responding { a.slots t with data := .empty, state := .free } := by
  obtain ⟨hlt, hst, h⟩ := of_slot h
  obtain rfl := Except.ok.inj h
  exact ⟨hlt, hst, rfl, rfl, by simp, fun hw => hw.released hlt hst⟩

theorem claimTag_cases {r : Option (Nat × SlotArray C)} (h : (a.claimTag : Checked ε _) = .ok r) :
    a.freeTags = [] ∧ r = none ∨ a.freeTags ≠ [] ∧
      ∃ t a', r = some (t, a') ∧ Moved a a' t .free (claimed (a.slots t)) := by
  have hok := h
  unfold claimTag at h
  split at h
  · exact .inl ⟨‹_›, (Except.ok.inj h).symm⟩
  · rename_i t rest hfree
    obtain ⟨s, hs, h⟩ := Checked.bind_eq_ok.1 h
    obtain ⟨hlt, rfl⟩ := slot_eq_ok hs
    obtain ⟨u, hst, h⟩ := Checked.bind_eq_ok.1 h
    obtain rfl := Except.ok.inj h
    refine .inr ⟨by simp [hfree], _, _, rfl, hlt, Checked.require_eq_ok.1 hst, rfl, rfl,
      by simp [hfree, claimed], fun hw => ?_⟩
    obtain ⟨hnone, -⟩ | ⟨t', rest', -, -, -, hsome, hwf⟩ := hw.claimTag (ε := ε)
    · cases hfree.symm.trans hnone
    · obtain ⟨rfl, heq⟩ := Prod.mk.inj (Option.some.inj (Except.ok.inj (hsome.symm.trans hok)))
      exact heq ▸ hwf

end SlotArray

end Ioutgt.Core
