import Mathlib.Algebra.Order.BigOperators.Group.List
import Mathlib.Algebra.Order.Group.Nat
import Mathlib.Data.List.Nodup
import Mathlib.Data.Nat.Init
import Ioutgt.Core.NsTable

/-!
# What a command runs against

A table fetched while nobody holds the write lock is the one in force. A cached table is of a
generation no older than the one it is filed under, and the counter never goes back; so when the
counter still shows that generation the table is the one in force at that moment. Identities are
fresh, so a namespace that was removed never comes back.

* `Timeline`: the table in force changes by the noted changes only.
* `Locking`: outside a change in progress the table is the one in force.
* `Identities`: what is being added was never in force.
* `Stamps`: a change takes force between its call and its return.
* `Readers`: what the caches and the commands hold.
-/

namespace Ioutgt.Core

open Lib

variable {q t : Nat} {ns : Namespace Nat} {table : NsMap Nat}

namespace World

variable {w w' : World} {a : NsAction}

/-! ## The steps -/

/-- What a step of queue thread `q` does. -/
inductive QueueStep (w : World) (q : Nat) : World → Prop
  | start (nsid : Nat) (hpc : (w.queues q).pc = .idle) :
      QueueStep w q (w.setPc q (.started ⟨nsid, w.clock⟩))
  | load (r : Ask) (hpc : (w.queues q).pc = .started r) :
      QueueStep w q (w.setPc q (.loaded r w.subsys.generation))
  | fetch (r : Ask) (g : Nat) (x : NsCache Nat × NsMap Nat) (hpc : (w.queues q).pc = .loaded r g)
      (hok : (w.queues q).cache.fresh g = true ∨ w.writer = none)
      (hx : (w.queues q).cache.get g w.subsys.namespaces = x) :
      QueueStep w q { w with queues := Function.update w.queues q ⟨x.1, .got r x.2⟩ }
  | lookup (r : Ask) (table : NsMap Nat) (hpc : (w.queues q).pc = .got r table) :
      QueueStep w q { w.setPc q .idle with
        commands := w.commands ++ [⟨r, w.clock, table, table.get r.nsid⟩] }

/-- What a step does: of a control thread `t`, or of any queue thread. -/
inductive Step (w : World) (t : Nat) : World → Prop
  | reads (q : Nat) {u : World} (h : QueueStep w q u) : Step w t u
  | callAdd (nsid : Nat) (hc : w.control t = .idle) :
      Step w t
        { w.setCtl t (.called (.add ⟨nsid, w.nextId⟩) w.clock) with nextId := w.nextId + 1 }
  | callRemove (nsid : Nat) (hc : w.control t = .idle) :
      Step w t (w.setCtl t (.called (.remove nsid) w.clock))
  | lock (c : Change) (since : Nat) (hc : w.control t = .called c since) (hfree : w.writer = none) :
      Step w t { w.setCtl t (.locked c since) with writer := some t }
  | swap (c : Change) (since : Nat) (table : NsMap Nat) (e : Effect) (hc : w.control t = .locked c since)
      (hswap : c.swap w.subsys = some (table, e)) :
      Step w t
        { w.setCtl t (.swapped e since) with subsys := { w.subsys with namespaces := table } }
  | refuse (c : Change) (since : Nat) (hc : w.control t = .locked c since) :
      Step w t { w.setCtl t .idle with writer := none }
  | bump (e : Effect) (since : Nat) (hc : w.control t = .swapped e since) :
      Step w t
        { w.setCtl t (.bumped e since w.clock) with
          subsys := { w.subsys with generation := w.subsys.generation + 1 }
          versions := Function.update w.versions (w.subsys.generation + 1) w.subsys.namespaces
          moments := Function.update w.moments w.clock (some e) }
  | unlock (e : Effect) (since forced : Nat) (hc : w.control t = .bumped e since forced) :
      Step w t { w.setCtl t (.unlocked e since forced) with writer := none }
  | ret (e : Effect) (since forced : Nat) (hc : w.control t = .unlocked e since forced) :
      Step w t
        { w.setCtl t .idle with returned := w.returned ++ [⟨e, since, forced, w.clock⟩] }

theorem act_step (h : w.act a = some w') : ∃ t, Step w t w' := by
  cases a <;> simp only [act] at h <;> split at h <;> try cases h
  next t nsid _ hc => exact ⟨t, .callAdd nsid hc⟩
  next t nsid _ hc => exact ⟨t, .callRemove nsid hc⟩
  next t _ _ c since hc hfree => exact ⟨t, .lock c since hc hfree⟩
  next t _ c since hc =>
    split at h <;> cases h
    · exact ⟨t, .swap c since _ _ hc (by assumption)⟩
    · exact ⟨t, .refuse c since hc⟩
  next t _ e since hc => exact ⟨t, .bump e since hc⟩
  next t _ e since forced hc => exact ⟨t, .unlock e since forced hc⟩
  next t _ e since forced hc => exact ⟨t, .ret e since forced hc⟩
  next q nsid _ hpc => exact ⟨0, .reads q (.start nsid hpc)⟩
  next q _ r hpc => exact ⟨0, .reads q (.load r hpc)⟩
  next q _ r g hpc =>
    obtain ⟨hok, rfl⟩ := of_guard h
    exact ⟨0, .reads q (.fetch r g _ hpc hok rfl)⟩
  next q _ r table hpc => exact ⟨0, .reads q (.lookup r table hpc)⟩

theorem QueueStep.frame (h : QueueStep w q w') :
    ∃ queues commands, w' = { w with queues, commands } := by
  cases h <;> exact ⟨_, _, rfl⟩

theorem Step.other {u : Nat} (h : Step w t w') (hu : u ≠ t) : w'.control u = w.control u := by
  cases h with
  | reads q h =>
    obtain ⟨queues, commands, rfl⟩ := h.frame
    rfl
  | _ => exact Function.update_of_ne hu _ _

/-- What earlier moments showed still stands. -/
structure Later (w w' : World) : Prop where
  clock : w'.clock = w.clock + 1
  generation : w.subsys.generation ≤ w'.subsys.generation
  versions : ∀ h, h ≤ w.subsys.generation → w'.versions h = w.versions h
  force : ∀ t, t ≤ w.clock → w'.force t = w.force t
  moments : ∀ t, t ≠ w.clock → w'.moments t = w.moments t
  now : w'.force w'.clock = w'.versions w'.subsys.generation

/-- A step by which no change takes force. -/
structure Quiet (w w' : World) : Prop where
  clock : w'.clock = w.clock
  generation : w'.subsys.generation = w.subsys.generation
  versions : w'.versions = w.versions
  force : w'.force = w.force
  moments : w'.moments = w.moments

theorem tick_force_of_le (h : t ≤ w.clock) : w.tick.force t = w.force t :=
  Function.update_of_ne (by omega) _ _

theorem tick_force_clock : w.tick.force w.tick.clock = w.versions w.subsys.generation :=
  Function.update_self _ _ _

theorem Quiet.later (h : Quiet w w') : Later w w'.tick where
  clock := congrArg (· + 1) h.clock
  generation := Nat.le_of_eq h.generation.symm
  versions g _ := congrFun h.versions g
  force t ht := by rw [tick_force_of_le (h.clock ▸ ht), h.force]
  moments t _ := congrFun h.moments t
  now := tick_force_clock

theorem QueueStep.quiet (h : QueueStep w q w') : Quiet w w' := by
  obtain ⟨queues, commands, rfl⟩ := h.frame
  exact ⟨rfl, rfl, rfl, rfl, rfl⟩

theorem Step.later (h : Step w t w') : Later w w'.tick := by
  cases h with
  | reads q h => exact h.quiet.later
  | bump e since hc =>
    refine ⟨rfl, Nat.le_succ _, fun h hle => ?_, fun t ht => tick_force_of_le ht, fun t ht => ?_,
      tick_force_clock⟩
    · exact Function.update_of_ne (Nat.ne_of_lt (Nat.lt_succ_of_le hle)) _ _
    · exact Function.update_of_ne ht _ _
  | _ => exact Quiet.later ⟨rfl, rfl, rfl, rfl, rfl⟩

/-! ## The lock -/

end World

/-- What a change that passed its check found in the table. -/
def Effect.Fits (t : NsMap Nat) : Effect → Prop
  | .added ns => t.get ns.nsid = none
  | .removed ns => t.get ns.nsid = some ns

def Ctl.pending : Ctl → Option (Namespace Nat)
  | .called (.add ns) _ | .locked (.add ns) _ | .swapped (.added ns) _ => some ns
  | _ => none

/-- The thread is between taking the lock and giving it back. -/
def Ctl.holds : Ctl → Bool
  | .locked .. | .swapped .. | .bumped .. => true
  | _ => false

/-- The change the thread has swapped in, until it takes force. -/
def Ctl.swap : Ctl → Option Effect
  | .swapped e _ => some e
  | _ => none

theorem NsMap.get_nsid {t : NsMap Nat} {nsid : Nat} (h : t.get nsid = some ns) :
    ns.nsid = nsid := by
  simpa using List.find?_some h

theorem Change.swap_spec {c : Change} {s : Subsystem Nat} {t : NsMap Nat} {e : Effect}
    (h : c.swap s = some (t, e)) :
    t = e.apply s.namespaces ∧ e.Fits s.namespaces ∧
      ∀ ns, e = .added ns → c = .add ns := by
  cases c with
  | add ns =>
    simp only [Change.swap, Subsystem.addNamespace] at h
    split at h
    · rename_i s' hadd
      split at hadd
      · cases hadd
      · rename_i hfree
        cases hadd
        cases h
        refine ⟨rfl, ?_, fun ns' hns => by cases hns; rfl⟩
        exact Option.not_isSome_iff_eq_none.mp hfree
    · cases h
  | remove nsid =>
    simp only [Change.swap, Subsystem.removeNamespace] at h
    split at h
    · rename_i s' ns hrem hget
      split at hrem
      · cases hrem
      · cases hrem
        cases h
        have hnsid := NsMap.get_nsid hget
        refine ⟨?_, ?_, fun ns' hns => by cases hns⟩
        · simp [Effect.apply, hnsid]
        · simpa only [Effect.Fits, hnsid] using hget
    · cases h

namespace World

variable {w w' : World} {a : NsAction}

theorem setCtl_control_self (t : Nat) (c : Ctl) : (w.setCtl t c).control t = c :=
  Function.update_self _ _ _

/-- The change that is swapped in and not in force yet. -/
def inHand (w : World) : Option Effect := w.writer.bind fun t => (w.control t).swap

/-- The table in memory is the one in force, but for the change in hand. -/
def Settled (w : World) : Option Effect → Prop
  | none => w.subsys.namespaces = w.versions w.subsys.generation
  | some e => w.subsys.namespaces = e.apply (w.versions w.subsys.generation) ∧
      e.Fits (w.versions w.subsys.generation)

structure Locking (w : World) : Prop where
  held : ∀ t, (w.control t).holds = true → w.writer = some t
  table : w.Settled w.inHand

theorem inHand_eq {c : Ctl} (hw : w.writer = some t) (hc : w.control t = c) : w.inHand = c.swap := by
  rw [inHand, hw, Option.bind_some, hc]

theorem Locking.of_settled {e : Option Effect}
    (hheld : ∀ t, (w.control t).holds = true → w.writer = some t) (he : w.inHand = e)
    (h : w.Settled e) : Locking w :=
  ⟨hheld, he.symm ▸ h⟩

theorem Locking.of_unlocked (h : Locking w) (hfree : w.writer = none) :
    w.subsys.namespaces = w.versions w.subsys.generation := by
  have htable := h.table
  rwa [inHand, hfree] at htable

theorem Locking.of_holds {c : Ctl} (h : Locking w) (hc : w.control t = c) (hholds : c.holds = true) :
    w.Settled c.swap :=
  inHand_eq (h.held t (hc ▸ hholds)) hc ▸ h.table

theorem Locking.act (h : Locking w) (hstep : Step w t w') : Locking w' := by
  have hother : ∀ u, u ≠ t → w'.control u = w.control u := fun u hu => hstep.other hu
  have hheld : (w'.writer = w.writer ∨ (w.control t).holds = true ∨ w.writer = none) →
      ((w'.control t).holds = true → w'.writer = some t) →
      ∀ u, (w'.control u).holds = true → w'.writer = some u := by
    intro hcase hself u hu
    by_cases hut : u = t
    · exact hut ▸ hself (hut ▸ hu)
    · -- nobody else is inside while `t` is
      rw [hother u hut] at hu
      have hwu := h.held u hu
      rcases hcase with hw | ht | hfree
      · rw [hw, hwu]
      · exact absurd (Option.some.inj (hwu.symm.trans (h.held t ht))) hut
      · cases hfree.symm.trans hwu
  have hself := setCtl_control_self (w := w) t
  cases hstep with
  | reads q hq =>
    obtain ⟨queues, commands, rfl⟩ := hq.frame
    exact ⟨h.held, h.table⟩
  | callAdd nsid hc | callRemove nsid hc | ret e since forced hc =>
    refine .of_settled (hheld (.inl rfl) fun h => ?_) (Option.bind_congr fun u _ => ?_) h.table
    · exact nomatch (congrArg Ctl.holds (hself _)).symm.trans h
    · by_cases hut : u = t
      · rw [hut, hc]
        exact (congrArg Ctl.swap (hself _)).trans rfl
      · exact congrArg Ctl.swap (hother u hut)
  | lock c since hc hfree =>
    exact .of_settled (hheld (.inr (.inr hfree)) fun _ => rfl) (inHand_eq rfl (hself _))
      (h.of_unlocked hfree)
  | refuse c since hc | unlock e since forced hc =>
    refine ⟨hheld (.inr (.inl (by rw [hc]; rfl))) fun h => ?_, h.of_holds hc rfl⟩
    exact nomatch (congrArg Ctl.holds (hself _)).symm.trans h
  | swap c since table e hc hswap =>
    have hw := h.held t (by rw [hc]; rfl)
    obtain ⟨htable, hfits, -⟩ := Change.swap_spec hswap
    rw [h.of_holds hc rfl] at htable hfits
    exact .of_settled (hheld (.inl rfl) fun _ => hw) (inHand_eq hw (hself _)) ⟨htable, hfits⟩
  | bump e since hc =>
    have hw := h.held t (by rw [hc]; rfl)
    refine .of_settled (hheld (.inl rfl) fun _ => hw) (inHand_eq hw (hself _)) ?_
    exact (Function.update_self (w.subsys.generation + 1) w.subsys.namespaces w.versions).symm

/-! ## Time -/

/-- The tables in force, one moment after the other. -/
structure Timeline (w : World) : Prop where
  now : w.force w.clock = w.versions w.subsys.generation
  later : ∀ t, w.clock ≤ t → w.moments t = none
  next : ∀ t, t < w.clock → w.force (t + 1) =
    match w.moments t with
    | none => w.force t
    | some e => e.apply (w.force t)
  fits : ∀ t e, w.moments t = some e → e.Fits (w.force t)

theorem Timeline.before (h : Timeline w) {e : Effect} (he : w.moments t = some e) :
    t < w.clock := by
  by_contra hle
  cases (h.later t (by omega)).symm.trans he

theorem Timeline.step (h : Timeline w) (hl : Later w w')
    (hnext : w'.force (w.clock + 1) =
      match w'.moments w.clock with
      | none => w.force w.clock
      | some e => e.apply (w.force w.clock))
    (hfits : ∀ e, w'.moments w.clock = some e → e.Fits (w.force w.clock)) : Timeline w' := by
  have hclock := hl.clock
  refine ⟨hl.now, fun t ht => ?_, fun t ht => ?_, fun t e he => ?_⟩
  · rw [hl.moments t (by omega)]
    exact h.later t (by omega)
  · rw [hl.force t (by omega)]
    by_cases hlast : t = w.clock
    · subst hlast
      exact hnext
    · rw [hl.force (t + 1) (by omega), hl.moments t hlast]
      exact h.next t (by omega)
  · by_cases hlast : t = w.clock
    · subst hlast
      rw [hl.force _ (Nat.le_refl _)]
      exact hfits e he
    · rw [hl.moments t hlast] at he
      rw [hl.force t (Nat.le_of_lt (h.before he))]
      exact h.fits t e he

theorem Timeline.quiet (h : Timeline w) (hq : Quiet w w') : Timeline w'.tick := by
  have hnone : w'.tick.moments w.clock = none :=
    (congrFun hq.moments _).trans (h.later w.clock (Nat.le_refl _))
  refine h.step hq.later ?_ fun e he => nomatch hnone.symm.trans he
  rw [hnone, h.now, ← hq.generation, ← hq.versions, ← hq.clock]
  exact tick_force_clock

theorem Timeline.act (h : Timeline w) (hl : Locking w) (hstep : Step w t w') :
    Timeline w'.tick := by
  have hlater := hstep.later
  cases hstep with
  | reads q hq => exact h.quiet hq.quiet
  | bump e since hc =>
    obtain ⟨htable, hfits⟩ := hl.of_holds hc rfl
    have hnew : Function.update w.moments w.clock (some e) w.clock = some e := Function.update_self ..
    refine h.step hlater ?_ fun e' he => ?_
    · refine hlater.now.trans ((Function.update_self ..).trans (htable.trans ?_))
      rw [← h.now]
      exact (congrArg (fun m : Option Effect => match m with
        | none => w.force w.clock
        | some e => e.apply (w.force w.clock)) hnew).symm
    · cases hnew.symm.trans he
      exact h.now ▸ hfits
  | _ => exact h.quiet ⟨rfl, rfl, rfl, rfl, rfl⟩

/-- What is in a table was in the one before, or takes force there. -/
theorem Timeline.mem_next (h : Timeline w) (ht : t < w.clock) (hns : ns ∈ w.force (t + 1)) :
    ns ∈ w.force t ∨ w.moments t = some (.added ns) := by
  rw [h.next t ht] at hns
  cases hm : w.moments t with
  | none =>
    rw [hm] at hns
    exact .inl hns
  | some e =>
    rw [hm] at hns
    cases e with
    | added new =>
      rcases List.mem_cons.mp hns with rfl | hold
      · exact .inr rfl
      · exact .inl hold
    | removed old => exact .inl (List.mem_of_mem_filter hns)

/-! ## Identities -/

/-- Every addition brings a namespace that was never in force. -/
structure Identities (w : World) : Prop where
  known : ∀ t, t ≤ w.clock → ∀ ns ∈ w.force t, ns.backend < w.nextId
  pending : ∀ i ns, (w.control i).pending = some ns →
    ns.backend < w.nextId ∧ ∀ t, t ≤ w.clock → ns ∉ w.force t
  distinct : ∀ i j ns, i ≠ j → (w.control i).pending = some ns → (w.control j).pending = some ns →
    False
  fresh : ∀ t ns, w.moments t = some (.added ns) → ∀ t', t' ≤ t → ns ∉ w.force t'

/-- An addition in progress was so before, or is that of one thread and has the next identity. -/
def Pends (w w' : World) : Prop :=
  w.nextId ≤ w'.nextId ∧ ∃ t, ∀ i ns, (w'.control i).pending = some ns →
    (w.control i).pending = some ns ∨ i = t ∧ ns.backend = w.nextId ∧ w.nextId < w'.nextId

theorem Identities.step (h : Identities w) (hlater : Later w w') (htime : Timeline w')
    (hpends : Pends w w')
    (hadded : ∀ ns, w'.moments w.clock = some (.added ns) →
      ∃ i, (w.control i).pending = some ns ∧ (w'.control i).pending = none) : Identities w' := by
  obtain ⟨hid, k, hpends⟩ := hpends
  have hclock := hlater.clock
  -- a namespace that is in force was so before, or a thread has just added it
  have hmem : ∀ t, t ≤ w'.clock → ∀ ns ∈ w'.force t, (∃ t', t' ≤ w.clock ∧ ns ∈ w.force t') ∨
      w'.moments w.clock = some (.added ns) := by
    intro t ht ns hns
    by_cases hle : t ≤ w.clock
    · exact .inl ⟨t, hle, hlater.force t hle ▸ hns⟩
    · obtain rfl : t = w.clock + 1 := by omega
      rcases htime.mem_next (by omega) hns with hold | hnew
      · exact .inl ⟨w.clock, Nat.le_refl _, hlater.force _ (Nat.le_refl _) ▸ hold⟩
      · exact .inr hnew
  refine ⟨fun t ht ns hns => ?_, fun i ns hi => ⟨?_, fun t ht hns => ?_⟩, fun i j ns hij hi hj => ?_,
    fun t ns hm t' ht' hns => ?_⟩
  · rcases hmem t ht ns hns with ⟨t', ht', hold⟩ | hnew
    · exact Nat.lt_of_lt_of_le (h.known t' ht' ns hold) hid
    · obtain ⟨i, hi, -⟩ := hadded ns hnew
      exact Nat.lt_of_lt_of_le (h.pending i ns hi).1 hid
  · rcases hpends i ns hi with hold | ⟨-, hns, hlt⟩
    · exact Nat.lt_of_lt_of_le (h.pending i ns hold).1 hid
    · exact hns ▸ hlt
  · rcases hmem t ht ns hns with ⟨t', ht', hforce⟩ | hnew
    · rcases hpends i ns hi with hold | ⟨-, hns, -⟩
      · exact (h.pending i ns hold).2 t' ht' hforce
      · have := h.known t' ht' ns hforce
        omega
    · obtain ⟨j, hj, hgone⟩ := hadded ns hnew
      rcases hpends i ns hi with hold | ⟨-, hns, -⟩
      · refine h.distinct i j ns ?_ hold hj
        rintro rfl
        cases hgone.symm.trans hi
      · have := (h.pending j ns hj).1
        omega
  · -- a thread with an older addition holds a smaller identity
    rcases hpends i ns hi with hi | ⟨hik, hns, -⟩ <;> rcases hpends j ns hj with hj | ⟨hjk, hns', -⟩
    · exact h.distinct i j ns hij hi hj
    · exact absurd (h.pending i ns hi).1 (by omega)
    · exact absurd (h.pending j ns hj).1 (by omega)
    · exact hij (hik.trans hjk.symm)
  · have htc := htime.before hm
    by_cases hlast : t = w.clock
    · subst hlast
      obtain ⟨i, hi, -⟩ := hadded ns hm
      rw [hlater.force t' ht'] at hns
      exact (h.pending i ns hi).2 t' ht' hns
    · rw [hlater.moments t hlast] at hm
      rw [hlater.force t' (by omega)] at hns
      exact h.fresh t ns hm t' ht' hns

theorem Step.pends (h : Step w t w') : Pends w w'.tick := by
  have hother : ∀ u, u ≠ t → w'.control u = w.control u := fun u hu => h.other hu
  -- a thread that starts no addition
  have hold : w'.nextId = w.nextId → (∀ ns, (w'.control t).pending = some ns →
      (w.control t).pending = some ns) → Pends w w'.tick := by
    refine fun hid hself => ⟨Nat.le_of_eq hid.symm, t, fun i ns hi => .inl ?_⟩
    by_cases hit : i = t
    · exact hit ▸ hself ns (hit ▸ hi)
    · rwa [← hother i hit]
  have hself := fun c => congrArg Ctl.pending (setCtl_control_self (w := w) t c)
  cases h with
  | reads q hq =>
    obtain ⟨queues, commands, rfl⟩ := hq.frame
    exact hold rfl fun ns hns => hns
  | callAdd nsid hc =>
    refine ⟨Nat.le_succ _, t, fun i ns hi => ?_⟩
    by_cases hit : i = t
    · subst hit
      cases (hself _).symm.trans hi
      exact .inr ⟨rfl, rfl, Nat.lt_succ_self _⟩
    · exact .inl ((congrArg Ctl.pending (hother i hit)).symm.trans hi)
  | lock c since hc hfree =>
    refine hold rfl fun ns hns => ?_
    have hns := (hself _).symm.trans hns
    rw [hc]
    cases c <;> exact hns
  | swap c since table e hc hswap =>
    refine hold rfl fun ns hns => ?_
    have hns := (hself _).symm.trans hns
    cases e with
    | added new =>
      obtain ⟨-, -, hadd⟩ := Change.swap_spec hswap
      rw [hc, hadd new rfl]
      exact hns
    | removed _ => cases hns
  | _ => exact hold rfl fun ns hns => nomatch (hself _).symm.trans hns

theorem Identities.act (h : Identities w) (htime : Timeline w) (hstep : Step w t w')
    (htime' : Timeline w'.tick) : Identities w'.tick := by
  refine h.step hstep.later htime' hstep.pends fun ns hns => ?_
  have hnone := htime.later w.clock (Nat.le_refl _)
  cases hstep with
  | reads q hq => cases hnone.symm.trans ((congrFun hq.quiet.moments _).symm.trans hns)
  | bump e since hc =>
    have hns : Function.update w.moments w.clock (some e) w.clock = some (.added ns) := hns
    rw [Function.update_self] at hns
    cases hns
    exact ⟨t, by rw [hc]; rfl, congrArg Ctl.pending (setCtl_control_self t _)⟩
  | _ => exact absurd (hnone.symm.trans hns) nofun

/-! ## Calls and returns -/

/-- The moments a control thread carries with it. -/
def Stamped (w : World) : Ctl → Prop
  | .idle => True
  | .called _ since | .locked _ since | .swapped _ since => since < w.clock
  | .bumped e since forced | .unlocked e since forced =>
    since < forced ∧ forced < w.clock ∧ w.moments forced = some e

/-- A change that has returned took force between its call and its return. -/
structure Returned (w : World) (d : Done) : Prop where
  called : d.called < d.forced
  forced : d.forced < d.returned
  returned : d.returned < w.clock
  effect : w.moments d.forced = some d.effect

theorem Later.lt (h : Later w w') : w.clock < w'.clock := h.clock ▸ Nat.lt_succ_self _

theorem Stamped.later {c : Ctl} (h : Stamped w c) (hl : Later w w') : Stamped w' c := by
  have hclock := hl.lt
  cases c with
  | idle => trivial
  | called c since | locked c since | swapped e since => exact Nat.lt_trans h hclock
  | bumped e since forced | unlocked e since forced =>
    obtain ⟨h1, h2, h3⟩ := h
    exact ⟨h1, Nat.lt_trans h2 hclock, (hl.moments forced (Nat.ne_of_lt h2)).trans h3⟩

theorem Returned.later {d : Done} (h : Returned w d) (hl : Later w w') : Returned w' d where
  called := h.called
  forced := h.forced
  returned := Nat.lt_trans h.returned hl.lt
  effect := (hl.moments _ (Nat.ne_of_lt (Nat.lt_trans h.forced h.returned))).trans h.effect

structure Stamps (w : World) : Prop where
  threads : ∀ t, Stamped w (w.control t)
  returned : ∀ d ∈ w.returned, Returned w d

theorem Step.stamped (hstep : Step w t w') (ht : Stamped w (w.control t)) :
    Stamped w'.tick (w'.control t) := by
  have hl := hstep.later
  have hself := setCtl_control_self (w := w) t
  cases hstep with
  | reads q hq =>
    obtain ⟨queues, commands, rfl⟩ := hq.frame
    exact ht.later hl
  | callAdd nsid hc | callRemove nsid hc =>
    exact (hself _).symm ▸ Nat.lt_succ_self w.clock
  | lock c since hc hfree | swap c since table e hc hswap =>
    rw [hc] at ht
    exact (hself _).symm ▸ Nat.lt_succ_of_lt ht
  | refuse c since hc | ret e since forced hc => exact (hself _).symm ▸ trivial
  | bump e since hc =>
    rw [hc] at ht
    have hnew : Function.update w.moments w.clock (some e) w.clock = some e := Function.update_self ..
    exact (hself _).symm ▸ ⟨ht, Nat.lt_succ_self w.clock, hnew⟩
  | unlock e since forced hc =>
    rw [hc] at ht
    exact (hself _).symm ▸ ⟨ht.1, Nat.lt_succ_of_lt ht.2.1, ht.2.2⟩

theorem Stamps.act (h : Stamps w) (hstep : Step w t w') : Stamps w'.tick := by
  have hl := hstep.later
  refine ⟨fun u => ?_, fun d hd => ?_⟩
  · by_cases hu : u = t
    · exact hu ▸ hstep.stamped (h.threads t)
    · exact hstep.other hu ▸ (h.threads u).later hl
  · have ht := h.threads t
    cases hstep with
    | reads q hq =>
      obtain ⟨queues, commands, rfl⟩ := hq.frame
      exact (h.returned d hd).later hl
    | ret e since forced hc =>
      rcases List.mem_append.mp hd with hold | hnew
      · exact (h.returned d hold).later hl
      · obtain rfl := List.mem_singleton.mp hnew
        rw [hc] at ht
        exact ⟨ht.1, ht.2.1, Nat.lt_succ_self w.clock, ht.2.2⟩
    | _ => exact (h.returned d hd).later hl

/-! ## Caches and commands -/

def InForce (w : World) (start : Nat) (table : NsMap Nat) : Prop :=
  ∃ t, start ≤ t ∧ t ≤ w.clock ∧ w.force t = table

theorem InForce.later {start : Nat} (h : InForce w start table) (hl : Later w w') :
    InForce w' start table := by
  obtain ⟨t, hstart, hle, hforce⟩ := h
  exact ⟨t, hstart, Nat.le_trans hle (Nat.le_of_lt hl.lt), (hl.force t hle).trans hforce⟩

def Progress (w : World) (cache : NsCache Nat) : QueuePc → Prop
  | .idle => True
  | .started r => r.start ≤ w.clock
  | .loaded r g => r.start ≤ w.clock ∧ g ≤ w.subsys.generation ∧
      ∀ table, cache.map = some table → cache.generation = g → InForce w r.start table
  | .got r table => InForce w r.start table

structure Reader (w : World) (q : NsQueue) : Prop where
  cache : ∀ table, q.cache.map = some table →
    ∃ h, q.cache.generation ≤ h ∧ h ≤ w.subsys.generation ∧ w.versions h = table
  progress : Progress w q.cache q.pc

theorem Reader.later {q : NsQueue} (h : Reader w q) (hl : Later w w') : Reader w' q where
  cache table htable := by
    obtain ⟨g, hge, hle, hversion⟩ := h.cache table htable
    exact ⟨g, hge, Nat.le_trans hle hl.generation, (hl.versions g hle).trans hversion⟩
  progress := by
    have hp := h.progress
    cases hpc : q.pc with
    | idle => trivial
    | started r =>
      rw [hpc] at hp
      exact Nat.le_trans hp (Nat.le_of_lt hl.lt)
    | loaded r g =>
      rw [hpc] at hp
      obtain ⟨hstart, hg, hin⟩ := hp
      refine ⟨Nat.le_trans hstart (Nat.le_of_lt hl.lt), Nat.le_trans hg hl.generation, ?_⟩
      exact fun table htable heq => (hin table htable heq).later hl
    | got r table =>
      rw [hpc] at hp
      exact InForce.later hp hl

/-- A command that has looked up ran against a table in force at a moment it was under way. -/
structure RanOk (w : World) (c : Ran) : Prop where
  found : c.found = c.table.get c.ask.nsid
  table : ∃ t, c.ask.start ≤ t ∧ t ≤ c.lookup ∧ w.force t = c.table
  lookup : c.lookup < w.clock

theorem RanOk.later {c : Ran} (h : RanOk w c) (hl : Later w w') : RanOk w' c where
  found := h.found
  table := by
    obtain ⟨t, hstart, hle, hforce⟩ := h.table
    have := h.lookup
    exact ⟨t, hstart, hle, (hl.force t (by omega)).trans hforce⟩
  lookup := Nat.lt_trans h.lookup hl.lt

structure Readers (w : World) : Prop where
  queues : ∀ q, Reader w (w.queues q)
  commands : ∀ c ∈ w.commands, RanOk w c

theorem Readers.later (h : Readers w) (hl : Later w w') (hq : w'.queues = w.queues)
    (hc : w'.commands = w.commands) : Readers w' where
  queues q := hq ▸ (h.queues q).later hl
  commands c hmem := (h.commands c (hc ▸ hmem)).later hl

theorem Readers.of_update (h : Readers w) (hl : Later w w') {x : NsQueue}
    (hqueues : w'.queues = Function.update w.queues q x) (hx : Reader w' x)
    (hcommands : ∀ c ∈ w'.commands, c ∈ w.commands ∨ RanOk w' c) : Readers w' where
  queues p := by
    by_cases hp : p = q
    · subst hp
      rw [hqueues, Function.update_self]
      exact hx
    · rw [hqueues, Function.update_of_ne hp]
      exact (h.queues p).later hl
  commands c hc := by
    rcases hcommands c hc with hold | hnew
    · exact (h.commands c hold).later hl
    · exact hnew

theorem Readers.queue (h : Readers w) (htime : Timeline w) (hlock : Locking w)
    (hstep : QueueStep w q w') : Readers w'.tick := by
  have hl := hstep.quiet.later
  have hq := h.queues q
  have hp := hq.progress
  cases hstep with
  | start nsid hpc =>
    exact h.of_update hl rfl ⟨(hq.later hl).cache, Nat.le_succ w.clock⟩ fun c hc => .inl hc
  | load r hpc =>
    rw [hpc] at hp
    have hp : r.start ≤ w.clock := hp
    refine h.of_update hl rfl ⟨(hq.later hl).cache, Nat.le_succ_of_le hp, Nat.le_refl _, ?_⟩
      fun c hc => .inl hc
    intro table htable hgen
    -- the cached table is not older than the generation just read, which is the newest
    obtain ⟨g, hge, hle, hversion⟩ := hq.cache table htable
    have hgen : (w.queues q).cache.generation = w.subsys.generation := hgen
    obtain rfl : g = w.subsys.generation := by omega
    exact InForce.later (w := w) ⟨w.clock, hp, Nat.le_refl _, htime.now.trans hversion⟩ hl
  | fetch r g x hpc hok hx =>
    rw [hpc] at hp
    obtain ⟨hstart, hg, hin⟩ := hp
    have hcase : x = ((w.queues q).cache, x.2) ∧ (w.queues q).cache.map = some x.2 ∧
          (w.queues q).cache.generation = g ∨
        w.writer = none ∧ x = ({ generation := g, map := some w.subsys.namespaces },
          w.subsys.namespaces) := by
      subst hx
      unfold NsCache.get
      unfold NsCache.fresh at hok
      cases hmap : (w.queues q).cache.map with
      | none =>
        rw [hmap] at hok
        exact .inr ⟨hok.resolve_left (by simp), rfl⟩
      | some map =>
        rw [hmap] at hok
        dsimp only
        split
        · rename_i hne
          exact .inr ⟨hok.resolve_left (by simp [hne]), rfl⟩
        · rename_i heq
          exact .inl ⟨rfl, rfl, not_not.mp heq⟩
    rcases hcase with ⟨hxeq, hmap, hgen⟩ | ⟨hfree, hxeq⟩
    · refine h.of_update hl rfl ⟨?_, (hin x.2 hmap hgen).later hl⟩ fun c hc => .inl hc
      rw [hxeq]
      exact (hq.later hl).cache
    · have hnow := hlock.of_unlocked hfree
      subst hxeq
      refine h.of_update hl rfl ⟨?_, ?_⟩ fun c hc => .inl hc
      · intro table htable
        cases htable
        exact ⟨w.subsys.generation, hg, Nat.le_refl _, hnow.symm⟩
      · exact InForce.later (w := w)
          ⟨w.clock, hstart, Nat.le_refl _, htime.now.trans hnow.symm⟩ hl
  | lookup r table hpc =>
    rw [hpc] at hp
    refine h.of_update hl rfl ⟨(hq.later hl).cache, trivial⟩ fun c hc => ?_
    rcases List.mem_append.mp hc with hold | hnew
    · exact .inl hold
    · obtain rfl := List.mem_singleton.mp hnew
      obtain ⟨t, hstart, hle, hforce⟩ := hp
      exact .inr ⟨rfl, ⟨t, hstart, hle, (hl.force t hle).trans hforce⟩, Nat.lt_succ_self w.clock⟩

theorem Readers.act (h : Readers w) (htime : Timeline w) (hlock : Locking w) (hstep : Step w t w') :
    Readers w'.tick := by
  have hl := hstep.later
  cases hstep with
  | reads q hq => exact h.queue htime hlock hq
  | _ => exact h.later hl rfl rfl

/-! ## Runs -/

/-- Everything that holds at every moment of a run that starts with `table`. -/
structure Sound (table : NsMap Nat) (w : World) : Prop where
  first : w.force 0 = table
  locking : Locking w
  timeline : Timeline w
  identities : Identities w
  stamps : Stamps w
  readers : Readers w

theorem sound_init (table : NsMap Nat) : Sound table (init table) where
  first := rfl
  locking := ⟨nofun, rfl⟩
  timeline := ⟨rfl, fun _ _ => rfl, nofun, nofun⟩
  identities := by
    refine ⟨fun t _ ns hns => ?_, nofun, nofun, nofun⟩
    exact Nat.lt_succ_of_le (List.le_sum_of_mem (List.mem_map_of_mem hns))
  stamps := ⟨fun _ => trivial, nofun⟩
  readers := ⟨fun _ => ⟨nofun, trivial⟩, nofun⟩

theorem Locking.tick (h : Locking w) : Locking w.tick := ⟨h.held, h.table⟩

theorem Sound.step (h : Sound table w) (hstep : w.step a = some w') : Sound table w' := by
  obtain ⟨w1, hact, rfl⟩ := Option.map_eq_some_iff.mp hstep
  obtain ⟨t, ht⟩ := act_step hact
  have htime := h.timeline.act h.locking ht
  exact {
    first := (ht.later.force 0 (Nat.zero_le _)).trans h.first
    locking := (h.locking.act ht).tick
    timeline := htime
    identities := h.identities.act h.timeline ht htime
    stamps := h.stamps.act ht
    readers := h.readers.act h.timeline h.locking ht }

theorem sound_run (as : List NsAction) (hrun : runFrom step (init table) as = some w) :
    Sound table w :=
  @runFrom_invariant _ _ step (Sound table) (fun h hstep => h.step hstep) as _ _
    (sound_init table) hrun

/-! ## What stays in force -/

theorem Sound.nodup (h : Sound table w) (htable : (table.map (·.nsid)).Nodup) :
    ∀ t, t ≤ w.clock → ((w.force t).map (·.nsid)).Nodup := by
  intro t
  induction t with
  | zero =>
    intro _
    rw [h.first]
    exact htable
  | succ t ih =>
    intro ht
    have hold := ih (by omega)
    rw [h.timeline.next t ht]
    cases hm : w.moments t with
    | none => exact hold
    | some e =>
      have hfits := h.timeline.fits t e hm
      cases e with
      | added ns =>
        refine List.nodup_cons.mpr ⟨fun hmem => ?_, hold⟩
        obtain ⟨ns', hns', heq⟩ := List.mem_map.mp hmem
        exact List.find?_eq_none.mp hfits ns' hns' (by simpa using heq)
      | removed ns => exact hold.sublist (List.filter_sublist.map _)

theorem Sound.removed (h : Sound table w) {f : Nat} (hf : w.moments f = some (.removed ns))
    (hft : f < t) (ht : t ≤ w.clock) : ns ∉ w.force t := by
  induction t, hft using Nat.le_induction with
  | base =>
    rw [h.timeline.next f ht, hf]
    simp [Effect.apply]
  | succ t hft ih =>
    intro hns
    rcases h.timeline.mem_next ht hns with hold | hnew
    · exact ih (by omega) hold
    · -- an addition brings nothing that was in force before
      refine h.identities.fresh t ns hnew f (by omega) ?_
      exact List.mem_of_find?_eq_some (h.timeline.fits f _ hf)

theorem Sound.added {table : NsMap Nat} (h : Sound table w) (htable : (table.map (·.nsid)).Nodup)
    {f : Nat} {ns : Namespace Nat} (hf : w.moments f = some (.added ns)) {t : Nat} (hft : f < t)
    (ht : t ≤ w.clock) :
    ns ∈ w.force t ∨ ∃ u, f < u ∧ u < t ∧ w.moments u = some (.removed ns) := by
  induction t, hft using Nat.le_induction with
  | base =>
    rw [h.timeline.next f ht, hf]
    exact .inl (List.mem_cons_self)
  | succ t hft ih =>
    rcases ih (by omega) with hold | ⟨u, hfu, hut, hu⟩
    · rw [h.timeline.next t ht]
      cases hm : w.moments t with
      | none => exact .inl hold
      | some e =>
        cases e with
        | added ns' => exact .inl (List.mem_cons_of_mem _ hold)
        | removed ns' =>
          by_cases heq : ns.nsid = ns'.nsid
          · have hmem := List.mem_of_find?_eq_some (h.timeline.fits t _ hm)
            have hsame : ns = ns' :=
              List.inj_on_of_nodup_map (h.nodup htable t (by omega)) hold hmem heq
            exact .inr ⟨t, hft, Nat.lt_succ_self t, by rw [hm, hsame]⟩
          · refine .inl (List.mem_filter.mpr ⟨hold, ?_⟩)
            simpa using heq
    · exact .inr ⟨u, hfu, Nat.lt_succ_of_lt hut, hu⟩

end World

theorem NsMap.get_of_mem {t : NsMap Nat} (hnd : (t.map (·.nsid)).Nodup) (h : ns ∈ t) :
    t.get ns.nsid = some ns := by
  cases hget : t.get ns.nsid with
  | none => exact absurd (List.find?_eq_none.mp hget ns h) (by simp)
  | some ns' =>
    have hmem := List.mem_of_find?_eq_some hget
    rw [List.inj_on_of_nodup_map hnd hmem h (NsMap.get_nsid hget)]

open World in
/-- In every run each change that has returned took force at one moment between its call and its
return; each command ran against the table in force at one moment between its start and its
lookup; a command that started after a removal had returned does not find the removed namespace,
and one that started after an addition had returned and names it finds it, unless a removal has
taken it away again. -/
theorem commands_run_against_table_in_force (table : NsMap Nat)
    (htable : (table.map (·.nsid)).Nodup) (as : List NsAction) (w : World)
    (hrun : runFrom World.step (World.init table) as = some w) :
    w.force 0 = table ∧
    (∀ t, t < w.clock → w.force (t + 1) =
      match w.moments t with
      | none => w.force t
      | some e => e.apply (w.force t)) ∧
    (∀ d ∈ w.returned, d.called < d.forced ∧ d.forced < d.returned ∧
      w.moments d.forced = some d.effect) ∧
    ∀ c ∈ w.commands,
      c.found = c.table.get c.ask.nsid ∧
      (∃ t, c.ask.start ≤ t ∧ t ≤ c.lookup ∧ w.force t = c.table) ∧
      ∀ d ∈ w.returned, d.returned < c.ask.start → ∀ ns,
        (d.effect = .removed ns → ns ∉ c.table ∧ c.found ≠ some ns) ∧
        (d.effect = .added ns →
          ns ∈ c.table ∧ (c.ask.nsid = ns.nsid → c.found = some ns) ∨
          ∃ u, d.forced < u ∧ u < c.lookup ∧ w.moments u = some (.removed ns)) := by
  have h := sound_run as hrun
  refine ⟨h.first, h.timeline.next, fun d hd => ?_, fun c hc => ?_⟩
  · have hr := h.stamps.returned d hd
    exact ⟨hr.called, hr.forced, hr.effect⟩
  · have hran := h.readers.commands c hc
    obtain ⟨t, hstart, hle, hforce⟩ := hran.table
    refine ⟨hran.found, ⟨t, hstart, hle, hforce⟩, fun d hd hbefore ns => ⟨fun he => ?_, fun he => ?_⟩⟩
    · have hr := h.stamps.returned d hd
      have hout : ns ∉ c.table := by
        have := hran.lookup
        have hforced := hr.forced
        exact hforce ▸ h.removed (he ▸ hr.effect) (by omega) (by omega)
      refine ⟨hout, fun hfound => hout ?_⟩
      rw [hran.found] at hfound
      exact List.mem_of_find?_eq_some hfound
    · have hr := h.stamps.returned d hd
      have hlookup := hran.lookup
      have hforced := hr.forced
      rcases h.added htable (he ▸ hr.effect) (show d.forced < t by omega) (by omega) with
        hin | ⟨u, hfu, hut, hu⟩
      · rw [hforce] at hin
        refine .inl ⟨hin, fun hnsid => ?_⟩
        rw [hran.found, hnsid]
        exact NsMap.get_of_mem (hforce ▸ h.nodup htable t (by omega)) hin
      · exact .inr ⟨u, hfu, by omega, hu⟩

/-- A queue reads namespace 1, control thread 0 removes it, the queue reads it again. -/
def readRemoveRead : List NsAction :=
  [.start 0 1, .load 0, .fetch 0, .lookup 0,
    .callRemove 0 1, .lock 0, .check 0, .bump 0, .unlock 0, .ret 0,
    .start 0 1, .load 0, .fetch 0, .lookup 0]

theorem commands_run_against_table_in_force_removed :
    ∃ w, runFrom World.step (World.init [⟨1, 0⟩]) readRemoveRead = some w ∧
      w.commands.map (·.found) = [some ⟨1, 0⟩, none] ∧
      w.returned = [⟨.removed ⟨1, 0⟩, 4, 7, 9⟩] ∧
      ∀ c ∈ w.commands, ∀ d ∈ w.returned, d.returned < c.ask.start → ∀ ns,
        d.effect = .removed ns → ns ∉ c.table ∧ c.found ≠ some ns := by
  refine ⟨_, rfl, rfl, rfl, fun c hc d hd hbefore ns he => ?_⟩
  obtain ⟨-, -, -, hcommands⟩ :=
    commands_run_against_table_in_force [⟨1, 0⟩] (by decide) readRemoveRead _ rfl
  exact ((hcommands c hc).2.2 d hd hbefore ns).1 he

end Ioutgt.Core
