import Ioutgt.Core.Proof.SlotQ
import Ioutgt.Nvme.Proof.Admin
import Ioutgt.Target.AdminQueue

/-!
# An admin queue from step to step

* `Stepped`, `step_spec`: all that a step can do; `dispatch_step`, `poll_step`: a task with something
  to do can always run;
* `Inv`, `Inv.step`: a slot between two steps is executing only because its event request waits; its
  task is registered or woken; at most one notice is pending, and with one pending nobody is
  registered;
* `Settled.no_request`: with a notice pending and every task run, nobody waits.
-/

namespace Ioutgt.Target

open Lib Ioutgt.Core Ioutgt.Nvme

variable {tag t : Nat} {slots : SlotArray Sqe}

/-! ## Slots -/

section Slots

variable {C : Type} {s s' : SlotArray C} {t : Nat}

structure SlotsKept (s s' : SlotArray C) : Prop where
  wf : s'.Wf
  nslots : s'.nslots = s.nslots
  same : ∀ t, (s.slots t).state = .executing ∨ (s'.slots t).state = .executing →
    s'.slots t = s.slots t

structure SlotChanged (s : SlotArray C) (t : Nat) (old new : SlotState) (s' : SlotArray C) :
    Prop where
  wf : s'.Wf
  nslots : s'.nslots = s.nslots
  lt : t < s.nslots
  was : (s.slots t).state = old
  now : s'.slots t = { s.slots t with state := new }
  rest : ∀ u, u ≠ t → s'.slots u = s.slots u

theorem SlotsKept.of_moved {st : SlotState} {v : Slot C} (hwf : s.Wf) (h : SlotArray.Moved s s' t st v)
    (hold : st ≠ .executing) (hnew : v.state ≠ .executing) : SlotsKept s s' where
  wf := h.wf hwf
  nslots := h.nslots
  same := by
    intro u hu
    rw [h.slots] at hu ⊢
    by_cases hut : u = t
    · subst hut
      rw [Function.update_self, h.was] at hu
      exact absurd hu (not_or.2 ⟨hold, hnew⟩)
    · rw [Function.update_of_ne hut]

theorem SlotChanged.take (h : s.Wf) (ht : t < s.nslots) (hs : (s.slots t).state = .ready) :
    SlotChanged s t .ready .executing ({ s with executing := s.executing + 1 }.put t
      { s.slots t with state := .executing }) where
  wf := h.put ht (by simp [hs]) (by simp) (by simp [Slot.isExecuting, hs])
  nslots := rfl
  lt := ht
  was := hs
  now := SlotArray.put_self ..
  rest := fun _ hu => SlotArray.put_other _ _ hu

theorem SlotChanged.respond (h : s.Wf) (ht : t < s.nslots) (hs : (s.slots t).state = .executing) :
    SlotChanged s t .executing .responding ({ s with executing := s.executing - 1 }.put t
      { s.slots t with state := .responding }) where
  wf := by
    have hpos := h.executing_pos ht hs
    refine h.put ht (by simp [hs]) (by simp) ?_
    simp only [Slot.isExecuting, hs]
    simp
    omega
  nslots := rfl
  lt := ht
  was := hs
  now := SlotArray.put_self ..
  rest := fun _ hu => SlotArray.put_other _ _ hu

theorem SlotChanged.kept {s₁ : SlotArray C} (h₁ : SlotChanged s t .ready .executing s₁)
    (h₂ : SlotChanged s₁ t .executing .responding s') : SlotsKept s s' where
  wf := h₂.wf
  nslots := h₂.nslots.trans h₁.nslots
  same := by
    intro u hu
    have hne : u ≠ t := by
      rintro rfl
      rw [h₁.was, h₂.now] at hu
      simp at hu
    rw [h₂.rest u hne, h₁.rest u hne]

end Slots

namespace AdminQueue

variable {B : Type} {q q' : AdminQueue} {a : AdminAction B} {ans : Option Answer}

def Waits (q : AdminQueue) (t : Nat) : Prop :=
  t < q.slots.nslots ∧ (q.slots.slots t).state = .executing

def MovesSlot : AdminAction B → Prop
  | .claim | .submit .. | .reject .. | .release .. => True
  | _ => False

/-! ## Steps -/

inductive Stepped (q : AdminQueue) : AdminAction B → AdminQueue → Option Answer → Prop where
  | move {a : AdminAction B} {slots : SlotArray Sqe} (moves : MovesSlot a)
    (kept : SlotsKept q.slots slots) : Stepped q a { q with slots } none
  | answer {tag now : Nat} {tables : Admin.Tables B} {registry : Registry} {slot : SlotView}
    {out : Outcome} {admin : AdminState} {slots : SlotArray Sqe} (submitted : q.Submitted tag)
    (handled : Handled (B := B) q.port q.admin (q.slots.slots tag).cmd (.done out) admin)
    (kept : SlotsKept q.slots slots) :
    Stepped q (.dispatch tag tables registry now slot) { q.ran tag with admin, slots }
      (some { tag, sqe := (q.slots.slots tag).cmd, out })
  | park {tag now : Nat} {tables : Admin.Tables B} {registry : Registry} {slot : SlotView}
    {admin : AdminState} {slots : SlotArray Sqe} (submitted : q.Submitted tag)
    (handled : Handled (B := B) q.port q.admin (q.slots.slots tag).cmd .parked admin)
    (changed : SlotChanged q.slots tag .ready .executing slots) :
    Stepped q (.dispatch tag tables registry now slot)
      { q.ran tag with admin, slots, aerWakers := q.aerWakers ++ [tag] } none
  | resume {tag : Nat} {out : Outcome} {admin : AdminState} {slots : SlotArray Sqe}
    (polled : EventPoll q.admin (some out) admin)
    (changed : SlotChanged q.slots tag .executing .responding slots) :
    Stepped q (.poll tag) { q.ran tag with admin, slots }
      (some { tag, sqe := (q.slots.slots tag).cmd, out })
  | again {tag : Nat} (waits : q.Waits tag) (polled : EventPoll q.admin none q.admin) :
    Stepped q (.poll tag) { q.ran tag with aerWakers := q.aerWakers ++ [tag] } none
  | changed : Stepped q .nsChanged q.fireNsChanged none
  | closed : Stepped q .close q.close none

theorem dispatch_spec [Backend B] (hwf : q.slots.Wf) (hsub : q.Submitted tag)
    (tables : Admin.Tables B) (registry : Registry) (now : Nat) (slot : SlotView) :
    ∃ r, q.dispatch tag tables registry now slot = .ok (some r) ∧
      Stepped q (.dispatch tag tables registry now slot) r.1 r.2 := by
  obtain ⟨ht, hready⟩ := hsub
  have htake := SlotChanged.take hwf ht hready
  have hawait := SlotArray.awaitCommand_ok (ε := Empty) ht hready
  generalize { q.slots with executing := q.slots.executing + 1 }.put tag
    { q.slots.slots tag with state := .executing } = taken at htake hawait
  obtain ⟨reply, admin, registry', hex, hh⟩ := execute_admin (ε := Empty)
    ({ q.ran tag with slots := taken } : AdminQueue).ctx rfl tables registry now slot
    (q.slots.slots tag).cmd
  unfold dispatch
  rw [hawait, Checked.bind_ok]
  dsimp only
  rw [hex]
  cases reply with
  | running handler => cases hh
  | parked => exact ⟨_, rfl, .park ⟨ht, hready⟩ hh htake⟩
  | done out =>
    have hlt : tag < taken.nslots := by
      rw [htake.nslots]
      exact ht
    have hrunning : (taken.slots tag).state = .executing := by rw [htake.now]
    have hbegin := htake.wf.beginRespond_ok (ε := Empty) hlt hrunning
    refine ⟨(_, _), ?_, .answer ⟨ht, hready⟩ hh (htake.kept (.respond htake.wf hlt hrunning))⟩
    rw [Checked.bind_ok]
    dsimp only [complete]
    rw [hbegin]
    rfl

theorem poll_spec (hwf : q.slots.Wf) (hw : q.Waits tag) :
    ∃ r, q.poll tag = .ok (some r) ∧ Stepped (B := B) q (.poll tag) r.1 r.2 := by
  obtain ⟨ht, hrunning⟩ := hw
  have hpoll := Admin.asyncEvent_spec q.admin
  unfold poll
  rw [SlotArray.slot_ok ht, Checked.bind_ok, if_pos hrunning]
  generalize Admin.asyncEvent q.admin = r at hpoll
  obtain ⟨o, admin⟩ := r
  cases o with
  | none =>
    cases hpoll with
    | idle hc he => exact ⟨_, rfl, .again ⟨ht, hrunning⟩ (.idle hc he)⟩
  | some out =>
    refine ⟨(_, _), ?_, .resume hpoll (.respond hwf ht hrunning)⟩
    dsimp only [complete]
    have hbegin := hwf.beginRespond_ok (ε := Empty) ht hrunning
    rw [ran, hbegin]
    rfl

theorem step_spec [Backend B] (hwf : q.slots.Wf) (h : q.step a = some (q', ans)) :
    Stepped q a q' ans := by
  cases a with
  | claim =>
    obtain ⟨o, ho, h⟩ := Option.bind_eq_some_iff.1 h
    obtain ⟨⟨tag, slots⟩, rfl, h⟩ := Option.bind_eq_some_iff.1 h
    obtain ⟨rfl, rfl⟩ := Prod.mk.inj (Option.some.inj h)
    obtain ⟨-, hnone⟩ | ⟨-, t, slots', hsome, hmoved⟩ :=
      SlotArray.claimTag_cases (Checked.toOption_eq_some ho)
    · cases hnone
    · obtain ⟨rfl, rfl⟩ := Prod.mk.inj (Option.some.inj hsome)
      exact .move trivial (.of_moved hwf hmoved (by simp) (by simp [SlotArray.claimed]))
  | submit tag sqe =>
    obtain ⟨slots, hs, h⟩ := Option.bind_eq_some_iff.1 h
    obtain ⟨rfl, rfl⟩ := Prod.mk.inj (Option.some.inj h)
    have hmoved := SlotArray.submit_moved (Checked.toOption_eq_some hs)
    exact .move trivial (.of_moved hwf hmoved (by simp) (by simp))
  | reject tag =>
    obtain ⟨slots, hs, h⟩ := Option.bind_eq_some_iff.1 h
    obtain ⟨rfl, rfl⟩ := Prod.mk.inj (Option.some.inj h)
    have hmoved := SlotArray.respondReceiving_moved (Checked.toOption_eq_some hs)
    exact .move trivial (.of_moved hwf hmoved (by simp) (by simp))
  | dispatch tag tables registry now slot =>
    have h := Checked.toOption_join_eq_some h
    by_cases hsub : q.Submitted tag
    · obtain ⟨r, hr, hstep⟩ := dispatch_spec hwf hsub tables registry now slot
      obtain rfl : r = (q', ans) := Option.some.inj (Except.ok.inj (hr.symm.trans h))
      exact hstep
    · -- the task finds no command
      obtain ⟨o, ho, h⟩ := Checked.bind_eq_ok.1 h
      obtain ⟨v, hv, ho⟩ := Checked.bind_eq_ok.1 ho
      obtain ⟨ht, rfl⟩ := SlotArray.slot_eq_ok hv
      rw [if_neg (fun hs => hsub ⟨ht, hs⟩)] at ho
      obtain rfl := Except.ok.inj ho
      cases h
  | poll tag =>
    have h := Checked.toOption_join_eq_some h
    by_cases hw : q.Waits tag
    · obtain ⟨r, hr, hstep⟩ := poll_spec (B := B) hwf hw
      obtain rfl : r = (q', ans) := Option.some.inj (Except.ok.inj (hr.symm.trans h))
      exact hstep
    · obtain ⟨v, hv, h⟩ := Checked.bind_eq_ok.1 h
      obtain ⟨ht, rfl⟩ := SlotArray.slot_eq_ok hv
      rw [if_neg (fun hs => hw ⟨ht, hs⟩)] at h
      cases h
  | release tag =>
    obtain ⟨⟨data, slots⟩, hs, h⟩ := Option.bind_eq_some_iff.1 h
    obtain ⟨rfl, rfl⟩ := Prod.mk.inj (Option.some.inj h)
    have hmoved := SlotArray.releaseTag_moved (Checked.toOption_eq_some hs)
    exact .move trivial (.of_moved hwf hmoved (by simp) (by simp))
  | nsChanged =>
    obtain ⟨rfl, rfl⟩ := Prod.mk.inj (Option.some.inj h)
    exact .changed
  | close =>
    obtain ⟨rfl, rfl⟩ := Prod.mk.inj (Option.some.inj h)
    exact .closed

/-! ## The invariant -/

structure Inv (q : AdminQueue) : Prop where
  wf : q.slots.Wf
  parked : ∀ t, q.Waits t → (q.slots.slots t).cmd.opcode = AdminOpcode.asyncEvent
  notice : q.admin.events = [] ∨ q.admin.events = [nsAttrNotice]
  registered : ∀ t, q.Waits t → t ∈ q.aerWakers ∨ t ∈ q.woken
  drained : q.admin.events ≠ [] → q.aerWakers = []

theorem Inv.start (port : PortConfig) (conn : QueueConn) (now : Nat) : (start port conn now).Inv where
  wf := .new _ _
  parked := fun _ h => nomatch h.2
  notice := .inl rfl
  registered := fun _ h => nomatch h.2
  drained := fun _ => rfl

theorem waits_kept (h : SlotsKept q.slots slots)
    (hw : t < slots.nslots ∧ (slots.slots t).state = .executing) :
    q.Waits t ∧ slots.slots t = q.slots.slots t := by
  have hsame := h.same t (.inr hw.2)
  exact ⟨⟨h.nslots ▸ hw.1, hsame ▸ hw.2⟩, hsame⟩

theorem waits_parked (h : SlotChanged q.slots tag .ready .executing slots)
    (hw : t < slots.nslots ∧ (slots.slots t).state = .executing) :
    t = tag ∨ t ≠ tag ∧ q.Waits t ∧ slots.slots t = q.slots.slots t := by
  by_cases hne : t = tag
  · exact .inl hne
  · have hsame := h.rest t hne
    exact .inr ⟨hne, ⟨h.nslots ▸ hw.1, hsame ▸ hw.2⟩, hsame⟩

theorem waits_resumed (h : SlotChanged q.slots tag .executing .responding slots)
    (hw : t < slots.nslots ∧ (slots.slots t).state = .executing) :
    t ≠ tag ∧ q.Waits t ∧ slots.slots t = q.slots.slots t := by
  have hne : t ≠ tag := by
    rintro rfl
    rw [h.now] at hw
    cases hw.2
  have hsame := h.rest t hne
  exact ⟨hne, ⟨h.nslots ▸ hw.1, hsame ▸ hw.2⟩, hsame⟩

theorem mem_woken_ran (hne : t ≠ tag) (h : t ∈ q.woken) : t ∈ (q.ran tag).woken :=
  List.mem_filter.2 ⟨h, by simpa using hne⟩

theorem events_of_poll {a₀ a' : AdminState} {o : Option Outcome} (h : EventPoll a₀ o a') :
    a'.events = a₀.events ∨ ∃ e, a₀.events = e :: a'.events := by
  cases h with
  | closed => exact .inl rfl
  | notified _ he => exact .inr ⟨_, he⟩
  | idle => exact .inl rfl

theorem events_of_handled {port : PortConfig} {a₀ a' : AdminState} {sqe : Sqe} {reply : Reply B}
    (h : Handled port a₀ sqe reply a') :
    a'.events = a₀.events ∨ ∃ e, a₀.events = e :: a'.events := by
  cases h with
  | event _ _ polled same =>
    rw [same.events]
    exact events_of_poll polled
  | waits _ _ _ same => exact .inl same.events
  | changedNs _ _ same => exact .inl same.events
  | busy _ same => exact .inl same.events
  | other _ _ same => exact .inl same.events

theorem Inv.notice_of (hi : q.Inv) {events : List Nat}
    (h : events = q.admin.events ∨ ∃ e, q.admin.events = e :: events) :
    (events = [] ∨ events = [nsAttrNotice]) ∧ (events ≠ [] → q.aerWakers = []) := by
  rcases h with rfl | ⟨e, he⟩
  · exact ⟨hi.notice, hi.drained⟩
  · have hnil : events = [] := by
      rcases hi.notice with h | h
      · rw [he] at h
        cases h
      · rw [he] at h
        exact (List.cons.inj h).2
    exact ⟨.inl hnil, fun hne => absurd hnil hne⟩

/-- A signalled change is noted, and, where the notice is enabled, leaves exactly one pending. -/
theorem fireNsChanged_spec (h : q.admin.events = [] ∨ q.admin.events = [nsAttrNotice]) :
    (q.admin.aec &&& aenCfgNsAttr = 0 ∧
        q.fireNsChanged = { q with admin := { q.admin with nsChanged := true } }) ∨
      q.admin.aec &&& aenCfgNsAttr ≠ 0 ∧
        q.fireNsChanged = wakeAll
          { q with admin := { q.admin with nsChanged := true, events := [nsAttrNotice] } } := by
  by_cases haec : q.admin.aec &&& aenCfgNsAttr = 0
  · refine .inl ⟨haec, ?_⟩
    simp only [fireNsChanged, AdminState.fireNsChanged, haec, if_true]
  · refine .inr ⟨haec, ?_⟩
    rcases h with h | h <;> simp [fireNsChanged, AdminState.fireNsChanged, haec, h]

theorem Submitted.ne_of_waits (hs : q.Submitted tag) (hw : q.Waits t) : t ≠ tag := by
  rintro rfl
  have := hs.2.symm.trans hw.2
  cases this

theorem Inv.stepped (hi : q.Inv) (h : Stepped q a q' ans) : q'.Inv := by
  cases h with
  | move moves kept =>
    refine ⟨kept.wf, fun t ht => ?_, hi.notice, fun t ht => ?_, hi.drained⟩
    · obtain ⟨hw, hsame⟩ := waits_kept kept ht
      exact (congrArg (fun s => s.cmd.opcode) hsame).trans (hi.parked t hw)
    · exact hi.registered t (waits_kept kept ht).1
  | answer submitted handled kept =>
    obtain ⟨hnotice, hdrained⟩ := hi.notice_of (events_of_handled handled)
    refine ⟨kept.wf, fun t ht => ?_, hnotice, fun t ht => ?_, hdrained⟩
    · obtain ⟨hw, hsame⟩ := waits_kept kept ht
      exact (congrArg (fun s => s.cmd.opcode) hsame).trans (hi.parked t hw)
    · have hw := (waits_kept kept ht).1
      exact (hi.registered t hw).imp_right (mem_woken_ran (submitted.ne_of_waits hw))
  | park submitted handled changed =>
    cases handled with
    | waits ready op polled same =>
      cases polled with
      | idle hc he =>
        have hnone := same.events.trans he
        refine ⟨changed.wf, fun t ht => ?_, .inl hnone, fun t ht => ?_, fun hne => absurd hnone hne⟩
        · obtain rfl | ⟨-, hw, hsame⟩ := waits_parked changed ht
          · exact (congrArg (fun s => s.cmd.opcode) changed.now).trans op
          · exact (congrArg (fun s => s.cmd.opcode) hsame).trans (hi.parked t hw)
        · obtain rfl | ⟨hne, hw, -⟩ := waits_parked changed ht
          · exact .inl (List.mem_append_right _ (List.mem_singleton.2 rfl))
          · exact (hi.registered t hw).imp (List.mem_append_left _) (mem_woken_ran hne)
  | resume polled changed =>
    obtain ⟨hnotice, hdrained⟩ := hi.notice_of (events_of_poll polled)
    refine ⟨changed.wf, fun t ht => ?_, hnotice, fun t ht => ?_, hdrained⟩
    · obtain ⟨-, hw, hsame⟩ := waits_resumed changed ht
      exact (congrArg (fun s => s.cmd.opcode) hsame).trans (hi.parked t hw)
    · obtain ⟨hne, hw, -⟩ := waits_resumed changed ht
      exact (hi.registered t hw).imp_right (mem_woken_ran hne)
  | @again tag waits polled =>
    cases polled with
    | idle hc he =>
      refine ⟨hi.wf, hi.parked, hi.notice, fun t ht => ?_, fun hne => absurd he hne⟩
      by_cases hne : t = tag
      · exact .inl (List.mem_append_right _ (List.mem_singleton.2 hne))
      · exact (hi.registered t ht).imp (List.mem_append_left _) (mem_woken_ran hne)
  | changed =>
    obtain ⟨-, hfire⟩ | ⟨-, hfire⟩ := fireNsChanged_spec hi.notice
    · rw [hfire]
      exact ⟨hi.wf, hi.parked, hi.notice, hi.registered, hi.drained⟩
    · rw [hfire]
      refine ⟨hi.wf, hi.parked, .inr rfl, fun t ht => .inr ?_, fun _ => rfl⟩
      exact List.mem_append.2 (hi.registered t ht).symm
  | closed =>
    refine ⟨hi.wf, hi.parked, hi.notice, fun t ht => .inr ?_, fun _ => rfl⟩
    exact List.mem_append.2 (hi.registered t ht).symm

theorem Inv.next [Backend B] (hi : q.Inv) (h : q.next a = some q') : q'.Inv := by
  obtain ⟨r, hr, rfl⟩ := Option.map_eq_some_iff.1 h
  exact hi.stepped (step_spec hi.wf hr)

/-- Once every task has run, a pending notice means that no event request is unanswered. -/
theorem Settled.no_request (hs : q.Settled) (hi : q.Inv) (he : q.admin.events ≠ []) (t : Nat) :
    ¬q.Submitted t ∧ ¬q.Waits t := by
  refine ⟨hs.2 t, fun hw => ?_⟩
  rcases hi.registered t hw with h | h
  · rw [hi.drained he] at h
    cases h
  · rw [hs.1] at h
    cases h

end AdminQueue

/-! ## A host that enables its controller -/

def eventPort : PortConfig :=
  { traddr := [], trsvcid := [], trtype := .tcp, maxQid := 1, ioQueueSize := 128
    subsystems := [], nodup := List.nodup_nil, fits := by decide }

def eventConn (sqsize : Nat) : QueueConn :=
  { qid := 0, sqsize, tid := 1, cpus := [], peer := []
    connectData := { hostid := [], cntlid := 0xFFFF, subsysnqn := discoveryNqn, hostnqn := [104, 0] } }

theorem wholeSlice_valid : 1 ≤ 1 ∧ 1 ≤ cntlidMax ∧ cntlidMax ≤ cntlidMax := by decide

def taken (tag : Nat) (sqe : Sqe) : List (AdminAction Geometry) :=
  [.claim, .submit tag sqe, .dispatch tag (fun _ => .new [])
    (.ofSlice { min := 1, max := cntlidMax, valid := wholeSlice_valid }) 0 noPayload]

def eventRequest : Sqe := { Sqe.zeroed with opcode := AdminOpcode.asyncEvent }

def enabling : List (AdminAction Geometry) :=
  taken 0 { Sqe.zeroed with opcode := AdminOpcode.fabrics, nsid := Fctype.connect } ++
    [.release 0] ++
  taken 0 { Sqe.zeroed with
    opcode := AdminOpcode.fabrics, nsid := Fctype.propertySet, cdw11 := Property.cc, cdw12 := 1 } ++
    [.release 0]

end Ioutgt.Target
