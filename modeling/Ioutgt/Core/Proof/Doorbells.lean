import Mathlib.Data.List.Nodup
import Ioutgt.Core.Doorbells
import Ioutgt.Core.Proof.SlotQ

/-!
# No doorbell is missed

Who holds a tag follows from the state of its slot, so every operation finds the slot in the state it
asks for. A task that waits has its waker in its cell and the condition it waits for does not hold:
whatever makes the condition hold empties the cell and wakes the task in the same step.

* `Tokens`: the tags each path holds are those of the slots in its states.
* `Inv`: the invariant; `Awaits.perform`: every step an enabled action takes succeeds and keeps it.
-/

namespace Ioutgt.Core

open Lib

/-! ## Who holds what -/

def Lists (n : Nat) (state : Nat → SlotState) (y : SlotState) (l : List Nat) : Prop :=
  ∀ t, t ∈ l ↔ t < n ∧ state t = y

namespace Lists

variable {n t : Nat} {state : Nat → SlotState} {x y : SlotState} {l l' : List Nat}

theorem kept (h : Lists n state y l) (hold : state t ≠ y) (hnew : x ≠ y) :
    Lists n (Function.update state t x) y l := by
  intro u
  by_cases hu : u = t
  · subst hu
    rw [Function.update_self]
    exact iff_of_false (fun hm => hold ((h u).1 hm).2) (fun hm => hnew hm.2)
  · rw [Function.update_of_ne hu]
    exact h u

theorem gained (h : Lists n state y l) (ht : t < n) (hl : ∀ u, u ∈ l' ↔ u = t ∨ u ∈ l) :
    Lists n (Function.update state t y) y l' := by
  intro u
  rw [hl u]
  by_cases hu : u = t
  · subst hu
    rw [Function.update_self]
    exact iff_of_true (.inl rfl) ⟨ht, rfl⟩
  · rw [Function.update_of_ne hu, or_iff_right hu]
    exact h u

theorem lost (h : Lists n state y l) (hnew : x ≠ y) (hl : ∀ u, u ∈ l' ↔ u ∈ l ∧ u ≠ t) :
    Lists n (Function.update state t x) y l' := by
  intro u
  rw [hl u]
  by_cases hu : u = t
  · subst hu
    rw [Function.update_self]
    exact iff_of_false (fun hm => hm.2 rfl) (fun hm => hnew hm.2)
  · rw [Function.update_of_ne hu, and_iff_left hu]
    exact h u

end Lists

theorem mem_filter_ne {l : List Nat} {t : Nat} : ∀ u, u ∈ l.filter (· ≠ t) ↔ u ∈ l ∧ u ≠ t := by
  intro u
  simp

/-- The receive path holds the receiving slots, the slot tasks the executing ones, and every
responding slot is owed one response. -/
structure Tokens (n : Nat) (state : Nat → SlotState) (claimed busy owed : List Nat) : Prop where
  nodup : owed.Nodup
  claimed : Lists n state .receiving claimed
  busy : Lists n state .executing busy
  owed : Lists n state .responding owed

namespace Tokens

variable {n t : Nat} {state : Nat → SlotState} {claimed busy owed : List Nat}

theorem claim (h : Tokens n state claimed busy owed) (ht : t < n) (hs : state t = .free) :
    Tokens n (Function.update state t .receiving) (t :: claimed) busy owed where
  claimed := h.claimed.gained ht fun _ => List.mem_cons
  busy := h.busy.kept (by simp [hs]) (by decide)
  owed := h.owed.kept (by simp [hs]) (by decide)
  nodup := h.nodup

theorem submit (h : Tokens n state claimed busy owed) (hs : state t = .receiving) :
    Tokens n (Function.update state t .ready) (claimed.filter (· ≠ t)) busy owed where
  claimed := h.claimed.lost (by decide) mem_filter_ne
  busy := h.busy.kept (by simp [hs]) (by decide)
  owed := h.owed.kept (by simp [hs]) (by decide)
  nodup := h.nodup

theorem take (h : Tokens n state claimed busy owed) (ht : t < n) (hs : state t = .ready) :
    Tokens n (Function.update state t .executing) claimed (t :: busy) owed where
  claimed := h.claimed.kept (by simp [hs]) (by decide)
  busy := h.busy.gained ht fun _ => List.mem_cons
  owed := h.owed.kept (by simp [hs]) (by decide)
  nodup := h.nodup

theorem not_owed (h : Tokens n state claimed busy owed) (hs : state t ≠ .responding) : t ∉ owed :=
  fun hm => hs ((h.owed t).1 hm).2

theorem owed_append (h : Tokens n state claimed busy owed) (ht : t < n)
    (hs : state t ≠ .responding) :
    Lists n (Function.update state t .responding) .responding (owed ++ [t]) ∧
      (owed ++ [t]).Nodup := by
  refine ⟨h.owed.gained ht fun u => ?_, ?_⟩
  · rw [List.mem_append, List.mem_singleton, or_comm]
  · refine List.nodup_append.mpr ⟨h.nodup, List.nodup_singleton t, fun a ha b hb => ?_⟩
    obtain rfl := List.mem_singleton.mp hb
    rintro rfl
    exact h.not_owed hs ha

theorem fail (h : Tokens n state claimed busy owed) (ht : t < n) (hs : state t = .receiving) :
    Tokens n (Function.update state t .responding) (claimed.filter (· ≠ t)) busy (owed ++ [t]) where
  claimed := h.claimed.lost (by decide) mem_filter_ne
  busy := h.busy.kept (by simp [hs]) (by decide)
  owed := (h.owed_append ht (by simp [hs])).1
  nodup := (h.owed_append ht (by simp [hs])).2

theorem complete (h : Tokens n state claimed busy owed) (ht : t < n) (hs : state t = .executing) :
    Tokens n (Function.update state t .responding) claimed (busy.filter (· ≠ t)) (owed ++ [t]) where
  claimed := h.claimed.kept (by simp [hs]) (by decide)
  busy := h.busy.lost (by decide) mem_filter_ne
  owed := (h.owed_append ht (by simp [hs])).1
  nodup := (h.owed_append ht (by simp [hs])).2

theorem release (h : Tokens n state claimed busy owed) (hs : state t = .responding) :
    Tokens n (Function.update state t .free) claimed busy (owed.filter (· ≠ t)) where
  claimed := h.claimed.kept (by simp [hs]) (by decide)
  busy := h.busy.kept (by simp [hs]) (by decide)
  owed := h.owed.lost (by decide) mem_filter_ne
  nodup := h.nodup.filter _

end Tokens

namespace SlotTasks

variable {C : Type} {s s' : SlotTasks C} {t : Nat}

/-! ## The invariant -/

def state (s : SlotTasks C) (t : Nat) : SlotState := (s.slots.array.slots t).state

def owed (s : SlotTasks C) : List Nat := s.held ++ s.list.work.filterMap SendItem.owes

/-- The invariant, with the tasks that are `asleep`: each of them has its waker in its cell, and what it
waits for is not there. -/
structure Awaits (s : SlotTasks C) (asleep : TaskId → Prop) : Prop where
  wf : s.slots.array.Wf
  tokens : Tokens s.slots.array.nslots s.state s.claimed s.busy s.owed
  empty : ∀ t, s.state t = .free → (s.slots.array.slots t).data = .empty
  slotBell : ∀ t, asleep (.slot t) → s.slots.wakers t = some (.slot t) ∧ s.state t ≠ .ready
  recvBell : asleep .recv → s.slots.tagWaiter = some .recv ∧ s.slots.array.freeTags = []
  sendBell : asleep .send → s.list.waker = some .send ∧ s.list.work = [] ∧ s.list.closed = false

abbrev Inv (s : SlotTasks C) : Prop := s.Awaits (s.rest · = .waiting)

theorem inv_start (nslots : Nat) (init : C) : Inv (start nslots init) where
  wf := .new nslots init
  tokens := by
    have hnone : ∀ y, y ≠ SlotState.free →
        Lists nslots (start nslots init).state y [] := by
      intro y hy t
      exact iff_of_false List.not_mem_nil fun h => hy h.2.symm
    exact ⟨List.nodup_nil, hnone _ (by decide), hnone _ (by decide), hnone _ (by decide)⟩
  empty _ _ := rfl
  slotBell := nofun
  recvBell := nofun
  sendBell := nofun

/-! ## Waking -/

theorem Awaits.settle {asleep : TaskId → Prop} {rest : TaskId → Rest} (h : s.Awaits asleep)
    (hrest : ∀ task, rest task = .waiting → asleep task) : Inv { s with rest } :=
  ⟨h.wf, h.tokens, h.empty, fun u hu => h.slotBell u (hrest _ hu), fun hw => h.recvBell (hrest _ hw),
    fun hw => h.sendBell (hrest _ hw)⟩

theorem Awaits.park {task : TaskId} (h : s.Awaits fun u => u = task ∨ s.rest u = .waiting) :
    Inv (s.setRest task .waiting) := by
  refine h.settle fun u hu => ?_
  by_cases ht : u = task
  · exact .inl ht
  · exact .inr (by rwa [Function.update_of_ne ht] at hu)

theorem Awaits.resume (h : Inv s) (task : TaskId) : Inv (s.setRest task .running) := by
  refine h.settle fun u hu => ?_
  by_cases ht : u = task
  · rw [ht, Function.update_self] at hu
    cases hu
  · rwa [Function.update_of_ne ht] at hu

theorem Awaits.wake {o : Option TaskId}
    (h : s.Awaits fun task => s.rest task = .waiting ∧ o ≠ some task) : Inv (s.wake o) := by
  cases o with
  | none => exact @Awaits.settle _ _ _ s.rest h fun u hu => ⟨hu, by simp⟩
  | some task =>
    rw [SlotTasks.wake]
    split
    · refine h.settle fun u hu => ?_
      by_cases ht : u = task
      · rw [ht, Function.update_self] at hu
        cases hu
      · rw [Function.update_of_ne ht] at hu
        exact ⟨hu, by simpa using Ne.symm ht⟩
    · rename_i hw
      refine @Awaits.settle _ _ _ s.rest h fun u hu => ⟨hu, ?_⟩
      rintro heq
      obtain rfl := Option.some.inj heq
      exact hw hu

/-! ## The actions -/

theorem Awaits.moved (h : Inv s) {asleep : TaskId → Prop} {x : Slot C}
    (hwf : s'.slots.array.Wf) (hn : s'.slots.array.nslots = s.slots.array.nslots)
    (hslots : s'.slots.array.slots = Function.update s.slots.array.slots t x)
    (htokens : Tokens s.slots.array.nslots (Function.update s.state t x.state) s'.claimed s'.busy
      s'.owed)
    (hempty : x.state = .free → x.data = .empty)
    (hasleep : ∀ u, asleep (.slot u) → s.rest (.slot u) = .waiting)
    (hwakers : ∀ u, u ≠ t → s'.slots.wakers u = s.slots.wakers u)
    (hbell : asleep (.slot t) → s'.slots.wakers t = some (.slot t) ∧ x.state ≠ .ready)
    (hrecv : asleep .recv → s'.slots.tagWaiter = some .recv ∧ s'.slots.array.freeTags = [])
    (hsend : asleep .send →
      s'.list.waker = some .send ∧ s'.list.work = [] ∧ s'.list.closed = false) : s'.Awaits asleep := by
  have hslot : s'.slots.array.slots t = x := by rw [hslots, Function.update_self]
  have hother : ∀ u, u ≠ t → s'.slots.array.slots u = s.slots.array.slots u := by
    intro u hu
    rw [hslots, Function.update_of_ne hu]
  have hstate : s'.state = Function.update s.state t x.state := by
    funext u
    by_cases hu : u = t
    · rw [hu, state, hslot, Function.update_self]
    · rw [state, hother u hu, Function.update_of_ne hu, state]
  refine ⟨hwf, hn ▸ hstate ▸ htokens, fun u hu => ?_, fun u hu => ?_, hrecv, hsend⟩
  · by_cases hut : u = t
    · rw [hut, state, hslot] at hu
      rw [hut, hslot]
      exact hempty hu
    · rw [state, hother u hut] at hu
      rw [hother u hut]
      exact h.empty u hu
  · by_cases hut : u = t
    · rw [hut] at hu ⊢
      rw [state, hslot]
      exact hbell hu
    · rw [state, hother u hut, hwakers u hut]
      exact h.slotBell u (hasleep u hu)

theorem Awaits.claim (h : Inv s) {rest : List Nat} (hfree : s.slots.array.freeTags = t :: rest)
    (hlt : t < s.slots.array.nslots) (hst : (s.slots.array.slots t).state = .free)
    {array : SlotArray C} (hwf : array.Wf) (hn : array.nslots = s.slots.array.nslots)
    (hslots : array.slots
      = Function.update s.slots.array.slots t (SlotArray.claimed (s.slots.array.slots t))) :
    Inv { s with slots := { s.slots with array }, claimed := t :: s.claimed } := by
  refine h.moved hwf hn hslots (h.tokens.claim hlt hst) nofun (fun _ hw => hw) (fun _ _ => rfl)
    (fun hw => ⟨(h.slotBell t hw).1, nofun⟩) (fun hw => ?_) h.sendBell
  -- a receive loop that waits saw no free tag
  have := (h.recvBell hw).2
  rw [hfree] at this
  cases this

theorem claim_perform (h : Inv s) : ∃ s', s.perform .claim = .ok s' ∧ Inv s' := by
  rcases h.wf.claimTag (ε := Empty) with ⟨-, hc⟩ | ⟨t, rest, hfree, hlt, hst, hc, hwf⟩
  · refine ⟨s, ?_, h⟩
    simp only [perform, BellArray.claimTag, hc, Checked.bind_ok]
    rfl
  · refine ⟨_, ?_, h.claim hfree hlt hst hwf rfl rfl⟩
    simp only [perform, BellArray.claimTag, hc, Checked.bind_ok]
    rfl

theorem awaitTag_perform (h : Inv s) : ∃ s', s.perform .awaitTag = .ok s' ∧ Inv s' := by
  rcases h.wf.claimTag (ε := Empty) with ⟨hfree, hc⟩ | ⟨t, rest, hfree, hlt, hst, hc, hwf⟩
  · have hpark : Inv (setRest { s with slots := { s.slots with tagWaiter := some .recv } } .recv
        .waiting) :=
      .park ⟨h.wf, h.tokens, h.empty, fun u hu => h.slotBell u (hu.resolve_left (by simp)),
        fun _ => ⟨rfl, hfree⟩, fun hw => h.sendBell (hw.resolve_left (by simp))⟩
    refine ⟨_, ?_, hpark⟩
    simp only [perform, BellArray.awaitTag, BellArray.claimTag, hc, Checked.bind_ok]
    rfl
  · refine ⟨_, ?_, (h.claim hfree hlt hst hwf rfl rfl).resume .recv⟩
    simp only [perform, BellArray.awaitTag, BellArray.claimTag, hc, Checked.bind_ok]
    rfl

theorem setData_perform (h : Inv s) {data : SlotData} (hen : t ∈ s.claimed ∨ t ∈ s.busy) :
    ∃ s', s.perform (.setData t data) = .ok s' ∧ Inv s' := by
  have hst : t < s.slots.array.nslots ∧ s.state t ≠ .free := by
    rcases hen with hm | hm
    · obtain ⟨hlt, hs⟩ := (h.tokens.claimed t).1 hm
      exact ⟨hlt, by simp [hs]⟩
    · obtain ⟨hlt, hs⟩ := (h.tokens.busy t).1 hm
      exact ⟨hlt, by simp [hs]⟩
  refine ⟨{ s with slots := { s.slots with
    array := s.slots.array.put t { s.slots.array.slots t with data } } }, ?_, ?_⟩
  · simp only [perform, BellArray.setData, SlotArray.slot_ok hst.1, Checked.bind_ok]
    rfl
  · have hsame : Function.update s.state t (s.slots.array.slots t).state = s.state :=
      Function.update_eq_self t s.state
    refine h.moved (h.wf.put_same hst.1 rfl) rfl rfl ?_ (fun hf => absurd hf hst.2) (fun _ hw => hw)
      (fun _ _ => rfl) (h.slotBell t) h.recvBell h.sendBell
    exact hsame.symm ▸ h.tokens

theorem owed_push (item : SendItem) : ({ s with list := (s.list.push item).2 } : SlotTasks C).owed
    = s.owed ++ item.owes.toList := by
  simp only [owed, SendList.push, List.filterMap_append, List.append_assoc]
  cases item <;> rfl

theorem solicit_perform (h : Inv s) : ∃ s', s.perform (.solicit t) = .ok s' ∧ Inv s' := by
  have howed : ({ s with list := (s.list.push (.r2t t)).2 } : SlotTasks C).owed = s.owed :=
    (owed_push _).trans (List.append_nil _)
  exact ⟨s.push (.r2t t), rfl, .wake ⟨h.wf, howed.symm ▸ h.tokens, h.empty,
    fun u hu => h.slotBell u hu.1, fun hw => h.recvBell hw.1, fun hw => absurd (h.sendBell hw.1).1 hw.2⟩⟩

theorem submit_perform (h : Inv s) {cmd : C} (hen : t ∈ s.claimed) :
    ∃ s', s.perform (.submit t cmd) = .ok s' ∧ Inv s' := by
  obtain ⟨hlt, hst⟩ := (h.tokens.claimed t).1 hen
  have hold : (s.slots.array.slots t).state = .receiving := hst
  have hwf : (s.slots.array.put t { s.slots.array.slots t with cmd, state := .ready }).Wf := by
    refine h.wf.put (n := s.slots.array.executing) hlt (by simp [hold]) (by simp) ?_
    simp [Slot.isExecuting, hold]
  have hwake : Inv (wake { s with
      slots := ⟨s.slots.array.put t { s.slots.array.slots t with cmd, state := .ready },
        Function.update s.slots.wakers t none, s.slots.tagWaiter⟩
      claimed := s.claimed.filter (· ≠ t) } (s.slots.wakers t)) :=
    -- the slot's task was in its cell, and has been woken
    .wake (h.moved hwf rfl rfl (h.tokens.submit hst) (fun he => by cases he) (fun _ hw => hw.1)
      (fun _ hu => Function.update_of_ne hu _ _) (fun hw => absurd (h.slotBell t hw.1).1 hw.2)
      (fun hw => h.recvBell hw.1) fun hw => h.sendBell hw.1)
  refine ⟨_, ?_, hwake⟩
  simp only [perform, BellArray.submit, SlotArray.submit_ok hlt hold, Checked.bind_ok]
  rfl

theorem Awaits.responding (h : Inv s) {array : SlotArray C} {claimed busy : List Nat}
    (hwf : array.Wf) (hn : array.nslots = s.slots.array.nslots)
    (hfree : array.freeTags = s.slots.array.freeTags)
    (hslots : array.slots = Function.update s.slots.array.slots t
      { s.slots.array.slots t with state := .responding })
    (htokens : Tokens s.slots.array.nslots (Function.update s.state t .responding) claimed busy
      (s.owed ++ [t])) :
    Inv (push { s with slots := { s.slots with array }, claimed, busy } (.response t)) := by
  refine .wake (h.moved hwf hn hslots ((owed_push (.response t)).symm ▸ htokens) nofun
    (fun _ hw => hw.1) (fun _ _ => rfl) (fun hw => ⟨(h.slotBell t hw.1).1, nofun⟩) (fun hw => ?_)
    fun hw => absurd (h.sendBell hw.1).1 hw.2)
  obtain ⟨hwaiter, hnone⟩ := h.recvBell hw.1
  exact ⟨hwaiter, hfree.trans hnone⟩

theorem fail_perform (h : Inv s) (hen : t ∈ s.claimed) :
    ∃ s', s.perform (.fail t) = .ok s' ∧ Inv s' := by
  obtain ⟨hlt, hst⟩ := (h.tokens.claimed t).1 hen
  have hold : (s.slots.array.slots t).state = .receiving := hst
  have hwf : (s.slots.array.put t { s.slots.array.slots t with state := .responding }).Wf := by
    refine h.wf.put (n := s.slots.array.executing) hlt (by simp [hold]) (by simp) ?_
    simp [Slot.isExecuting, hold]
  refine ⟨_, ?_, h.responding hwf rfl rfl rfl (h.tokens.fail hlt hst)⟩
  simp only [perform, BellArray.respondReceiving, SlotArray.respondReceiving_ok hlt hold,
    Checked.bind_ok]
  rfl

theorem complete_perform (h : Inv s) (hen : t ∈ s.busy) :
    ∃ s', s.perform (.complete t) = .ok s' ∧ Inv s' := by
  obtain ⟨hlt, hst⟩ := (h.tokens.busy t).1 hen
  have hold : (s.slots.array.slots t).state = .executing := hst
  have hpos := h.wf.executing_pos hlt hold
  have hwf : ({ s.slots.array with executing := s.slots.array.executing - 1 }.put t
      { s.slots.array.slots t with state := .responding }).Wf := by
    refine h.wf.put hlt (by simp [hold]) (by simp) ?_
    simp only [Slot.isExecuting, hold]
    simp
    omega
  refine ⟨_, ?_, h.responding hwf rfl rfl rfl (h.tokens.complete hlt hst)⟩
  simp only [perform, BellArray.beginRespond, h.wf.beginRespond_ok hlt hold, Checked.bind_ok]
  rfl

theorem awaitCommand_perform (h : Inv s) (hen : t < s.slots.array.nslots ∧ t ∉ s.busy) :
    ∃ s', s.perform (.awaitCommand t) = .ok s' ∧ Inv s' := by
  obtain ⟨hlt, -⟩ := hen
  by_cases hst : s.state t = .ready
  · have hold : (s.slots.array.slots t).state = .ready := hst
    have hwf : ({ s.slots.array with executing := s.slots.array.executing + 1 }.put t
        { s.slots.array.slots t with state := .executing }).Wf := by
      refine h.wf.put hlt (by simp [hold]) (by simp) ?_
      simp [Slot.isExecuting, hold]
    have hmoved : Inv { s with
        slots := { s.slots with
          array := { s.slots.array with executing := s.slots.array.executing + 1 }.put t
            { s.slots.array.slots t with state := .executing } }
        busy := t :: s.busy } :=
      h.moved hwf rfl rfl (h.tokens.take hlt hst) (fun he => by cases he) (fun _ hw => hw)
        (fun _ _ => rfl) (fun hw => ⟨(h.slotBell t hw).1, fun he => by cases he⟩) h.recvBell h.sendBell
    refine ⟨_, ?_, hmoved.resume (.slot t)⟩
    simp only [perform, BellArray.awaitCommand, SlotArray.awaitCommand_ok hlt hold, Checked.bind_ok]
    rfl
  · have hnone : (s.slots.array.awaitCommand t : Checked Empty _) = .ok none := by
      have hold : (s.slots.array.slots t).state ≠ .ready := hst
      rw [SlotArray.awaitCommand, SlotArray.slot_ok hlt, Checked.bind_ok, if_neg hold]
      rfl
    have hpark : Inv (setRest { s with
        slots := { s.slots with wakers := Function.update s.slots.wakers t (some (.slot t)) } }
        (.slot t) .waiting) := by
      refine .park ⟨h.wf, h.tokens, h.empty, fun u hu => ?_,
        fun hw => h.recvBell (hw.resolve_left (by simp)),
        fun hw => h.sendBell (hw.resolve_left (by simp))⟩
      by_cases hut : u = t
      · subst hut
        exact ⟨Function.update_self _ _ _, hst⟩
      · obtain ⟨hwaker, hready⟩ := h.slotBell u (hu.resolve_left (by simpa using hut))
        exact ⟨(Function.update_of_ne hut _ _).trans hwaker, hready⟩
    refine ⟨_, ?_, hpark⟩
    simp only [perform, BellArray.awaitCommand, hnone, Checked.bind_ok]
    rfl

theorem Awaits.hold (h : Inv s) {item : SendItem} {work : List SendItem}
    (hwork : s.list.work = item :: work) :
    Inv (SlotTasks.hold { s with list := { s.list with work } } item) := by
  have howed : (SlotTasks.hold { s with list := { s.list with work } } item).owed = s.owed := by
    simp only [owed, SlotTasks.hold, hwork, List.filterMap_cons]
    cases item <;> simp [SendItem.owes]
  refine ⟨h.wf, howed.symm ▸ h.tokens, h.empty, h.slotBell, h.recvBell, fun hw => ?_⟩
  have := (h.sendBell hw).2.1
  rw [hwork] at this
  cases this

theorem tryNext_perform (h : Inv s) : ∃ s', s.perform .tryNext = .ok s' ∧ Inv s' := by
  cases hwork : s.list.work with
  | nil =>
    refine ⟨s, ?_, h⟩
    simp only [perform, SendList.tryNext, hwork]
    rfl
  | cons item work =>
    refine ⟨_, ?_, h.hold hwork⟩
    simp only [perform, SendList.tryNext, hwork]
    rfl

theorem pollNext_perform (h : Inv s) : ∃ s', s.perform .pollNext = .ok s' ∧ Inv s' := by
  cases hwork : s.list.work with
  | cons item work =>
    refine ⟨_, ?_, (h.hold hwork).resume .send⟩
    simp only [perform, SendList.pollNext, hwork]
    rfl
  | nil =>
    cases hclosed : s.list.closed with
    | true =>
      refine ⟨_, ?_, h.resume .send⟩
      simp only [perform, SendList.pollNext, hwork, hclosed, if_true]
      rfl
    | false =>
      have hpark : Inv (setRest { s with list := { s.list with waker := some .send } } .send
          .waiting) :=
        .park ⟨h.wf, h.tokens, h.empty, fun u hu => h.slotBell u (hu.resolve_left (by simp)),
          fun hw => h.recvBell (hw.resolve_left (by simp)), fun _ => ⟨rfl, hwork, hclosed⟩⟩
      refine ⟨_, ?_, hpark⟩
      simp only [perform, SendList.pollNext, hwork, hclosed]
      rfl

theorem close_perform (h : Inv s) : ∃ s', s.perform .close = .ok s' ∧ Inv s' :=
  ⟨_, rfl, .wake ⟨h.wf, h.tokens, h.empty, fun u hu => h.slotBell u hu.1, fun hw => h.recvBell hw.1,
    fun hw => absurd (h.sendBell hw.1).1 hw.2⟩⟩

theorem release_perform (h : Inv s) (hen : t ∈ s.held) :
    ∃ s', s.perform (.release t) = .ok s' ∧ Inv s' := by
  have howes : t ∈ s.owed := List.mem_append_left _ hen
  obtain ⟨hlt, hst⟩ := (h.tokens.owed t).1 howes
  have hold : (s.slots.array.slots t).state = .responding := hst
  -- the response that was taken is the only one
  have howed : s.owed.filter (· ≠ t)
      = s.held.filter (· ≠ t) ++ s.list.work.filterMap SendItem.owes := by
    have hnot : t ∉ s.list.work.filterMap SendItem.owes := fun hm =>
      (List.nodup_append.mp h.tokens.nodup).2.2 t hen t hm rfl
    rw [owed, List.filter_append]
    congr 1
    refine List.filter_eq_self.mpr fun u hu => ?_
    have hut : u ≠ t := fun heq => hnot (heq ▸ hu)
    simpa using hut
  have htokens := h.tokens.release hst
  rw [howed] at htokens
  have hwake : Inv (wake { s with
      slots := ⟨s.slots.array.released t, s.slots.wakers, none⟩
      held := s.held.filter (· ≠ t) } s.slots.tagWaiter) :=
    -- a receive loop that waits was in its cell, and has been woken
    .wake (h.moved (h.wf.released hlt hold) rfl rfl htokens (fun _ => rfl)
      (fun _ hw => hw.1) (fun _ _ => rfl) (fun hw => ⟨(h.slotBell t hw.1).1, nofun⟩)
      (fun hw => absurd (h.recvBell hw.1).1 hw.2) fun hw => h.sendBell hw.1)
  refine ⟨_, ?_, hwake⟩
  simp only [perform, BellArray.releaseTag, SlotArray.releaseTag_ok hlt hold, Checked.bind_ok]
  rfl

/-- Every enabled action succeeds: no assertion fails and the counter does not underflow. -/
theorem Awaits.perform (h : Inv s) {a : SlotAction C} (hen : s.Enabled a) :
    ∃ s', s.perform a = .ok s' ∧ Inv s' := by
  cases a with
  | claim => exact claim_perform h
  | awaitTag => exact awaitTag_perform h
  | setData tag data => exact setData_perform h hen
  | solicit tag => exact solicit_perform h
  | submit tag cmd => exact submit_perform h hen
  | fail tag => exact fail_perform h hen
  | awaitCommand tag => exact awaitCommand_perform h hen
  | complete tag => exact complete_perform h hen
  | tryNext => exact tryNext_perform h
  | pollNext => exact pollNext_perform h
  | close => exact close_perform h
  | release tag => exact release_perform h hen

theorem Awaits.step (h : Inv s) {a : SlotAction C} (hstep : s.step a = some s') : Inv s' := by
  unfold SlotTasks.step at hstep
  split at hstep
  · rename_i hen
    obtain ⟨s1, hs1, hinv⟩ := h.perform hen
    rw [hs1] at hstep
    obtain rfl := Option.some.inj hstep
    exact hinv
  · cases hstep

end SlotTasks

/-- **The slot array and the send list of a queue, over every interleaving of its tasks**: the free
list holds exactly the free tags, each once; the counter counts the executing slots; a free slot holds
no data; no assertion of an operation fails and the counter does not underflow. A slot task that waits
while its slot is ready has been woken, and so has a receive loop that waits while a tag is free and a
send loop that waits while work is queued or the list is closed. -/
theorem slots_consistent_and_no_wakeup_lost {C : Type} (nslots : Nat) (init : C)
    (as : List (SlotAction C)) (s : SlotTasks C)
    (hrun : runFrom SlotTasks.step (SlotTasks.start nslots init) as = some s) :
    s.slots.array.freeTags.Nodup ∧
    (∀ t, t ∈ s.slots.array.freeTags ↔ t < s.slots.array.nslots ∧ s.state t = .free) ∧
    s.slots.array.executing = tally s.slots.array.nslots Slot.isExecuting s.slots.array.slots ∧
    (∀ t, s.state t = .free → (s.slots.array.slots t).data = .empty) ∧
    (∀ a, s.Enabled a → ∃ s', s.perform a = .ok s') ∧
    (∀ t, s.state t = .ready → s.rest (.slot t) ≠ .waiting) ∧
    (s.slots.array.freeTags ≠ [] → s.rest .recv ≠ .waiting) ∧
    (s.list.work ≠ [] ∨ s.list.closed = true → s.rest .send ≠ .waiting) := by
  have h := @runFrom_invariant _ _ SlotTasks.step SlotTasks.Inv (fun h hstep => h.step hstep) as _ _
    (SlotTasks.inv_start nslots init) hrun
  refine ⟨h.wf.nodup, h.wf.free, h.wf.executing, h.empty, fun a hen => ?_,
    fun t hready hw => (h.slotBell t hw).2 hready, fun hfree hw => hfree (h.recvBell hw).2,
    fun hsend hw => ?_⟩
  · obtain ⟨s', hs', -⟩ := h.perform hen
    exact ⟨s', hs'⟩
  · obtain ⟨-, hwork, hclosed⟩ := h.sendBell hw
    rcases hsend with hne | hc
    · exact hne hwork
    · rw [hclosed] at hc
      cases hc

/-- One slot: its task and both loops wait before the command arrives; it is submitted, taken up,
completed and released. -/
def oneCommand : List (SlotAction Nat) :=
  [.awaitCommand 0, .pollNext, .awaitTag, .awaitTag, .submit 0 7, .awaitCommand 0, .complete 0,
    .pollNext, .release 0]

theorem slots_consistent_and_no_wakeup_lost_one :
    ∃ s, runFrom SlotTasks.step (SlotTasks.start 1 0) oneCommand = some s ∧
      s.slots.array.freeTags = [0] ∧ s.rest .recv = .woken ∧
      (s.slots.array.freeTags ≠ [] → s.rest .recv ≠ .waiting) := by
  refine ⟨_, rfl, rfl, rfl, ?_⟩
  exact (slots_consistent_and_no_wakeup_lost 1 0 oneCommand _ rfl).2.2.2.2.2.2.1

end Ioutgt.Core
