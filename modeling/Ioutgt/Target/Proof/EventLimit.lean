import Ioutgt.Target.Proof.AdminQueue

/-!
# How many event requests can be outstanding

Identify Controller advertises a limit; dispatch does not consult it.

* `outstanding_kept`, `outstanding_parked`, `outstanding_resumed`: the count from step to step;
* `bounded_step`: a step stays within the limit, and leaves a slot free of event requests, exactly
  when it does not park one too many;
* `refused_iff`: a request beyond the limit is never refused.
-/

namespace Ioutgt.Target

open Lib Ioutgt.Core Ioutgt.Nvme

/-- The most event requests a host may have outstanding, as Identify Controller has it. -/
def aerLimit : Nat := Admin.aerl + 1

namespace AdminQueue

variable {B : Type} {q q' : AdminQueue} {a : AdminAction B} {ans : Option Answer}
  {slots : SlotArray Sqe} {tag : Nat}

/-! ## The count -/

theorem outstanding_kept (h : SlotsKept q.slots slots) :
    tally slots.nslots waitsForEvent slots.slots = q.outstanding := by
  rw [h.nslots]
  refine tally_congr fun t _ => ?_
  by_cases hw : (q.slots.slots t).state = .executing ∨ (slots.slots t).state = .executing
  · rw [h.same t hw]
  · obtain ⟨hold, hnew⟩ := not_or.1 hw
    unfold waitsForEvent
    rw [beq_eq_false_iff_ne.2 hold, beq_eq_false_iff_ne.2 hnew, Bool.false_and, Bool.false_and]

theorem outstanding_changed {old new : SlotState} (h : SlotChanged q.slots tag old new slots) :
    tally slots.nslots waitsForEvent slots.slots +
        (if waitsForEvent (q.slots.slots tag) then 1 else 0) =
      q.outstanding + if waitsForEvent (slots.slots tag) then 1 else 0 := by
  have hslots : slots.slots = Function.update q.slots.slots tag (slots.slots tag) := by
    funext u
    by_cases hu : u = tag
    · subst hu
      rw [Function.update_self]
    · rw [Function.update_of_ne hu, h.rest u hu]
  have hcount := tally_update waitsForEvent q.slots.slots tag (slots.slots tag) h.lt
  rw [← hslots] at hcount
  rw [h.nslots]
  exact hcount

theorem outstanding_parked (h : SlotChanged q.slots tag .ready .executing slots)
    (hop : (q.slots.slots tag).cmd.opcode = AdminOpcode.asyncEvent) :
    tally slots.nslots waitsForEvent slots.slots = q.outstanding + 1 := by
  have hcount := outstanding_changed h
  rw [h.now] at hcount
  simpa [waitsForEvent, h.was, hop] using hcount

theorem outstanding_resumed (h : SlotChanged q.slots tag .executing .responding slots)
    (hop : (q.slots.slots tag).cmd.opcode = AdminOpcode.asyncEvent) :
    tally slots.nslots waitsForEvent slots.slots + 1 = q.outstanding := by
  have hcount := outstanding_changed h
  rw [h.now] at hcount
  simpa [waitsForEvent, h.was, hop] using hcount

/-! ## The limit -/

/-- No more event requests are parked than the limit, and some slot holds none. -/
def Bounded (q : AdminQueue) : Prop :=
  q.outstanding ≤ aerLimit ∧ ∃ t < q.slots.nslots, waitsForEvent (q.slots.slots t) = false

/-- An event request beyond the limit is answered at once, with an error. -/
def RefusesBeyond [Backend B] (q : AdminQueue) (a : AdminAction B) : Prop :=
  q.RequestsEvent a → aerLimit ≤ q.outstanding →
    ∃ q' ans, q.step a = some (q', some ans) ∧ ans.out.status ≠ Status.success

/-- The host issues an event request only within the limit; and one that has to wait, only when that
leaves a slot for other commands. -/
def WithinLimit (q : AdminQueue) (a : AdminAction B) : Prop :=
  q.RequestsEvent a → q.outstanding < aerLimit ∧
    (q.admin.events = [] → q.admin.closing = false → q.outstanding + 1 < q.slots.nslots)

instance (q : AdminQueue) (a : AdminAction B) : Decidable (q.WithinLimit a) :=
  inferInstanceAs (Decidable (_ → _))

/-- The request would be parked, and that would be one too many. -/
def ParksWithin (q : AdminQueue) (a : AdminAction B) : Prop :=
  q.RequestsEvent a → q.admin.events = [] → q.admin.closing = false →
    q.outstanding < aerLimit ∧ q.outstanding + 1 < q.slots.nslots

theorem bounded_iff : q.Bounded ↔ q.outstanding ≤ aerLimit ∧ q.outstanding < q.slots.nslots :=
  and_congr_right fun _ => tally_lt_iff.symm

theorem bounded_of_eq (hb : q.Bounded) (hn : q'.slots.nslots = q.slots.nslots)
    (ho : q'.outstanding ≤ q.outstanding) : q'.Bounded := by
  rw [bounded_iff] at hb ⊢
  omega

theorem not_requestsEvent_of_moves (h : MovesSlot a) : ¬q.RequestsEvent a := by
  cases a <;> first | exact id | exact fun _ => h

theorem answered_has_event {out : Outcome} {admin : AdminState}
    (h : Handled (B := B) q.port q.admin (q.slots.slots tag).cmd (.done out) admin)
    (hop : (q.slots.slots tag).cmd.opcode = AdminOpcode.asyncEvent)
    (hready : q.admin.regs.ready = true) :
    out.status = Status.success ∧ (q.admin.events = [] → q.admin.closing = true) := by
  cases h with
  | event _ _ polled _ =>
    cases polled with
    | closed hc => exact ⟨rfl, fun _ => hc⟩
    | notified _ he => exact ⟨rfl, fun h => absurd (he.symm.trans h) (List.cons_ne_nil _ _)⟩
  | changedNs _ op => exact absurd (hop.symm.trans op.1) (by decide)
  | busy hnot =>
    rw [hready] at hnot
    cases hnot
  | other hne => exact absurd hop hne

theorem bounded_step (hi : q.Inv) (hb : q.Bounded) (h : Stepped q a q' ans) :
    q'.Bounded ↔ q.ParksWithin a := by
  cases h with
  | move moves kept =>
    exact iff_of_true (bounded_of_eq hb kept.nslots (outstanding_kept kept).le)
      fun hr => absurd hr (not_requestsEvent_of_moves moves)
  | answer submitted handled kept =>
    refine iff_of_true (bounded_of_eq hb kept.nslots (outstanding_kept kept).le) fun hr he hc => ?_
    have hclosing := (answered_has_event handled hr.2.1 hr.2.2).2 he
    rw [hc] at hclosing
    cases hclosing
  | park submitted handled changed =>
    cases handled with
    | waits ready op polled same =>
      cases polled with
      | idle hc he =>
        have hcount := outstanding_parked changed op
        rw [bounded_iff]
        show tally _ _ _ ≤ _ ∧ tally _ _ _ < _ ↔ _
        rw [hcount, changed.nslots]
        exact ⟨fun h _ _ _ => h, fun h => h ⟨submitted, op, ready⟩ he hc⟩
  | resume polled changed =>
    have hcount := outstanding_resumed changed (hi.parked _ ⟨changed.lt, changed.was⟩)
    exact iff_of_true (bounded_of_eq hb changed.nslots (Nat.le_of_succ_le hcount.le)) fun hr => hr.elim
  | again => exact iff_of_true (bounded_of_eq hb rfl le_rfl) fun hr => hr.elim
  | changed =>
    refine iff_of_true ?_ fun hr => hr.elim
    obtain ⟨-, hfire⟩ | ⟨-, hfire⟩ := fireNsChanged_spec hi.notice <;> rw [hfire] <;> exact hb
  | closed => exact iff_of_true (bounded_of_eq hb rfl le_rfl) fun hr => hr.elim

theorem request_step [Backend B] (hi : q.Inv) (hr : q.RequestsEvent a) :
    ∃ q' ans, q.step a = some (q', ans) := by
  cases a with
  | dispatch tag tables registry now slot =>
    obtain ⟨⟨q', ans⟩, hd, -⟩ := dispatch_spec hi.wf hr.1 tables registry now slot
    refine ⟨q', ans, ?_⟩
    rw [step, hd]
    rfl
  | _ => exact hr.elim

/-- No event request is refused, so a request beyond the limit must not come. -/
theorem refused_iff [Backend B] (hi : q.Inv) :
    q.RefusesBeyond a ↔ (q.RequestsEvent a → q.outstanding < aerLimit) := by
  refine ⟨fun h hr => ?_, fun h hr hle => absurd (h hr) (Nat.not_lt.2 hle)⟩
  by_contra hnot
  obtain ⟨q', ans, hstep, herr⟩ := h hr (Nat.not_lt.1 hnot)
  generalize hans : some ans = o at hstep
  cases step_spec hi.wf hstep with
  | move moves => exact not_requestsEvent_of_moves moves hr
  | answer submitted handled =>
    obtain rfl := Option.some.inj hans
    exact herr (answered_has_event handled hr.2.1 hr.2.2).1
  | park => cases hans
  | resume => exact hr
  | again => exact hr
  | changed => exact hr
  | closed => exact hr

/-- The limit is kept: in every state the run reaches the event requests are within it and leave a
slot, and each request beyond it is refused. -/
def Limited [Backend B] (q : AdminQueue) (as : List (AdminAction B)) : Prop :=
  (∀ as' q', as' <+: as → runFrom next q as' = some q' → q'.Bounded) ∧
    StepsOk next RefusesBeyond q as

theorem bounded_run_iff [Backend B] (hi : q.Inv) (hb : q.Bounded) (as : List (AdminAction B)) :
    (∀ as' q', as' <+: as → runFrom next q as' = some q' → q'.Bounded) ↔
      StepsOk next ParksWithin q as := by
  have hstep : ∀ {q : AdminQueue} {a : AdminAction B} {q' : AdminQueue}, q.Inv ∧ q.Bounded →
      q.next a = some q' → (q'.Inv ∧ q'.Bounded ↔ q.ParksWithin a) := by
    rintro q a q' ⟨hi, hb⟩ h
    obtain ⟨r, hr, rfl⟩ := Option.map_eq_some_iff.1 h
    have hs := step_spec hi.wf hr
    exact (and_iff_right (hi.stepped hs)).trans (bounded_step hi hb hs)
  have hnone : ∀ {q : AdminQueue} {a : AdminAction B}, q.Inv ∧ q.Bounded → q.next a = none →
      q.ParksWithin a := by
    rintro q a ⟨hi, -⟩ h hr
    obtain ⟨q', ans, hsome⟩ := request_step hi hr
    rw [next, hsome] at h
    cases h
  refine Iff.trans ?_ (stepsOk_iff hstep hnone ⟨hi, hb⟩)
  refine forall_congr' fun as' => forall_congr' fun q' => forall_congr' fun _ =>
    forall_congr' fun hr => ?_
  have hinv : q'.Inv := runFrom_invariant Inv.next hi hr
  exact (and_iff_right hinv).symm

/-- **The advertised limit on event requests holds exactly when the host keeps it.** -/
theorem event_requests_limited_iff [Backend B] (port : PortConfig) (conn : QueueConn) (now : Nat)
    (hdepth : 0 < conn.sqsize) (as : List (AdminAction B)) :
    Limited (.start port conn now) as ↔ StepsOk next WithinLimit (.start port conn now) as := by
  have hi : (AdminQueue.start port conn now).Inv := .start port conn now
  have hb : (AdminQueue.start port conn now).Bounded := by
    have hnone : (AdminQueue.start port conn now).outstanding = 0 := tally_eq_zero fun _ _ => rfl
    rw [bounded_iff, hnone]
    exact ⟨Nat.zero_le _, hdepth⟩
  have hrefuse : StepsOk next RefusesBeyond (AdminQueue.start port conn now) as ↔
      StepsOk next (fun q a => q.RequestsEvent a → q.outstanding < aerLimit)
        (AdminQueue.start port conn now) as :=
    stepsOk_congr Inv.next refused_iff hi
  rw [Limited, bounded_run_iff hi hb, hrefuse, ← stepsOk_and]
  refine stepsOk_congr Inv.next (fun _ => ?_) hi
  constructor
  · intro h hr
    exact ⟨h.2 hr, fun he hc => (h.1 hr he hc).2⟩
  · intro h
    exact ⟨fun hr he hc => ⟨(h hr).1, (h hr).2 he hc⟩, fun hr => (h hr).1⟩

/-- Four requests on a queue of five slots, and one of them answered by the next change. -/
theorem event_requests_limited_four :
    Limited (.start eventPort (eventConn 5) 0)
      (enabling ++ (List.range 4).flatMap (taken · eventRequest) ++ [.nsChanged, .poll 0]) :=
  (event_requests_limited_iff eventPort (eventConn 5) 0 (by decide) _).2 (by decide +kernel)

/-- Five requests on a queue of five slots: the fifth is parked like the others, and then no slot is
left to receive a Keep Alive in. -/
theorem event_requests_take_every_slot :
    ¬Limited (.start eventPort (eventConn 5) 0)
        (enabling ++ (List.range 5).flatMap fun tag => taken tag eventRequest) ∧
      ∃ q, runFrom next (.start eventPort (eventConn 5) 0)
          (enabling ++ (List.range 5).flatMap fun tag => taken tag eventRequest) = some q ∧
        q.outstanding = 5 ∧ q.next (.claim : AdminAction Geometry) = none := by
  have hrun : (runFrom next (.start eventPort (eventConn 5) 0)
      (enabling ++ (List.range 5).flatMap fun tag => taken tag eventRequest)).map
        (fun q => (q.outstanding, (q.next (.claim : AdminAction Geometry)).isNone))
      = some (5, true) := by
    decide +kernel
  obtain ⟨q, hq, ho⟩ := Option.map_eq_some_iff.1 hrun
  obtain ⟨hfive, hnone⟩ := Prod.mk.inj ho
  refine ⟨fun h => ?_, q, hq, hfive, Option.isNone_iff_eq_none.1 hnone⟩
  have hle := (h.1 _ q (List.prefix_refl _) hq).1
  rw [hfive] at hle
  exact absurd hle (by decide)

end AdminQueue

end Ioutgt.Target
