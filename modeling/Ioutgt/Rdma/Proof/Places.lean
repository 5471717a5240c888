import Ioutgt.Rdma.Proof.Capsule

/-!
# Where every capsule and every receive buffer is

Commands and buffers move separately: a command may have left its buffer while it waits for a tag,
for pool pages or for its host data.

* `places`: every place a command that has arrived can be in;
* `Placed`: each command is in one place, each buffer is in one place, and a tag that waits for
  pages or for host data does so once;
* `Placed.step`, and from it `capsules_and_buffers_have_one_place`.
-/

namespace Ioutgt.Rdma

open Lib Ioutgt.Core Ioutgt.Nvme Ioutgt.Tcp

variable {B : Type} {role : Role B} {ts : List Nat}

@[simp] def SendWr.readTag : SendWr → Option Nat
  | .read r => some r.tag
  | _ => none

@[simp] def Wc.readTag : Wc → Option Nat
  | .read tag => some tag
  | _ => none

def owns (s : Slot Sqe) : Bool := s.state = .ready || s.state = .executing

def owned (a : SlotArray Sqe) : List Sqe :=
  ((List.range a.nslots).filter fun t => owns (a.slots t)).map fun t => (a.slots t).cmd

namespace RdmaQueue

def unprocessed (q : RdmaQueue) : List Sqe :=
  (q.cq.filterMap Wc.buf).map fun idx => commandOf (q.recvSlice idx)

def reading (q : RdmaQueue) : List Nat :=
  q.readBatch.map (·.tag) ++ q.sq.filterMap SendWr.readTag ++ q.cq.filterMap Wc.readTag

/-- Every place a command can be in: unprocessed, parked for a tag, waiting for pool pages, waiting
for its host data, owned by its slot, or answered. -/
def places (q : RdmaQueue) : List Sqe :=
  q.unprocessed ++ q.parked.map (·.1) ++ q.poolWait.map (·.2.1) ++ q.reading.map q.pendingRead
    ++ owned q.slots ++ q.responses.map (·.cmd)

end RdmaQueue

structure Intake where
  q : RdmaQueue
  arrived : List Sqe

namespace Intake

def bootstrapped (cfg : QueueCfg) (connect : List UInt8) : Intake where
  q := RdmaQueue.bootstrapped cfg connect
  arrived := []

@[simp] def arrivals (q : RdmaQueue) : Action → List Sqe
  | .arrive idx _ => [commandOf (q.recvSlice idx)]
  | _ => []

def step (role : Role B) (r : Intake) (a : Action) : Option Intake :=
  (Rdma.step role r.q a).map fun q => { q, arrived := r.arrived ++ arrivals q a }

/-- The host sends a capsule only while fewer than the queue size of its commands are unanswered. -/
def HostWithin (r : Intake) : Action → Prop
  | .arrive .. => r.arrived.length < r.q.answered + r.q.cfg.sqsize
  | _ => True

instance (r : Intake) : ∀ a : Action, Decidable (r.HostWithin a)
  | .arrive .. => inferInstanceAs (Decidable (_ < _))
  | .nicSend _ | .reap _ | .drainWait _ | .drainParked _ | .postReads | .postResponses | .take _
  | .finish .. => .isTrue trivial

end Intake

/-! ## Commands owned by slots -/

section

variable {a a' : SlotArray Sqe} {tag : Nat} {st st' : SlotState} {cmd x : Sqe}

theorem count_owned (a : SlotArray Sqe) (x : Sqe) :
    (owned a).count x = tally a.nslots (fun s => owns s && s.cmd == x) a.slots := by
  unfold owned
  induction a.nslots with
  | zero => rfl
  | succ n ih =>
    rw [List.range_succ, List.filter_append, List.map_append, List.count_append, ih, tally]
    cases h : owns (a.slots n) <;> simp [h, List.filter, List.count_singleton]

theorem owned_agree (h : RdmaQueue.Agree a a') : (owned a').count x = (owned a).count x := by
  rw [count_owned, count_owned, h.nslots]
  exact tally_congr fun i _ => by simp [owns, h.state, h.cmd]

/-- What a slot that goes from one state to another adds to the commands owned, and takes. -/
theorem owned_goes (h : RdmaQueue.Goes a a' tag st st' cmd) (x : Sqe) :
    (owned a').count x + (if (st = .ready ∨ st = .executing) ∧ (a.slots tag).cmd = x then 1 else 0)
      = (owned a).count x + if (st' = .ready ∨ st' = .executing) ∧ cmd = x then 1 else 0 := by
  obtain ⟨s, hm, rfl, rfl, -⟩ := h
  have htally := tally_update (fun s : Slot Sqe => owns s && s.cmd == x) a.slots tag s hm.lt
  rw [count_owned, count_owned, hm.nslots, hm.slots, ← hm.was]
  simpa [owns] using htally

/-- The tags `ts` are waited for once, and only while their slot is receiving. -/
def WaitOnce (ts : List Nat) (a : SlotArray Sqe) : Prop :=
  ∀ t, ts.count t ≤ if (a.slots t).state = .receiving then 1 else 0

theorem WaitOnce.goes (h : WaitOnce ts a) (hc : ts.count tag = 0)
    (hgoes : RdmaQueue.Goes a a' tag st st' cmd) : WaitOnce ts a' := by
  obtain ⟨s, hm, -, -⟩ := hgoes
  intro t
  rw [hm.slots]
  by_cases ht : t = tag
  · rw [ht, hc]
    exact Nat.zero_le _
  · rw [Function.update_of_ne ht]
    exact h t

theorem WaitOnce.count_goes (h : WaitOnce ts a) (hst : st ≠ .receiving)
    (hgoes : RdmaQueue.Goes a a' tag st st' cmd) : ts.count tag = 0 := by
  obtain ⟨s, hm, -, -⟩ := hgoes
  have := h tag
  rw [hm.was, if_neg hst] at this
  omega

theorem WaitOnce.agree (h : WaitOnce ts a) (hagree : RdmaQueue.Agree a a') : WaitOnce ts a' := by
  intro t
  rw [hagree.state]
  exact h t

theorem WaitOnce.mono {ts' : List Nat} (h : WaitOnce ts a) (hc : ∀ t, ts'.count t ≤ ts.count t) :
    WaitOnce ts' a :=
  fun t => (hc t).trans (h t)

theorem WaitOnce.wait {ts' : List Nat} (h : WaitOnce ts a) (hc : ts.count tag = 0)
    (hst : (a.slots tag).state = .receiving) (hts : ∀ t, ts'.count t = ts.count t + [tag].count t) :
    WaitOnce ts' a := by
  intro t
  have := h t
  rw [hts, List.count_singleton]
  by_cases ht : tag = t
  · subst ht
    simp [hc, hst]
  · simpa [ht] using this

end

namespace RdmaQueue

variable {q q' : RdmaQueue} {pool : Pool} {tag idx : Nat} {sqe : Sqe} {held : Option Nat}

def waiting (q : RdmaQueue) : List Nat := q.poolWait.map (·.1) ++ q.reading

/-- A claimed tag that does not wait yet. -/
structure Fresh (q : RdmaQueue) (tag : Nat) : Prop where
  once : WaitOnce q.waiting q.slots
  receiving : (q.slots.slots tag).state = .receiving
  count : q.waiting.count tag = 0

/-- One more command is in some place, and no tag waits twice. -/
structure Gains (q q' : RdmaQueue) (sqe : Sqe) : Prop where
  places : ∀ x, q'.places.count x = q.places.count x + [sqe].count x
  once : WaitOnce q'.waiting q'.slots

@[simp] theorem count_places (q : RdmaQueue) (x : Sqe) :
    q.places.count x
      = ((q.cq.filterMap Wc.buf).map fun idx => commandOf (q.recvBuf idx).bytes).count x
        + (q.parked.map (·.1)).count x + (q.poolWait.map (·.2.1)).count x
        + ((q.readBatch.map (·.tag)).map q.pendingRead).count x
        + ((q.sq.filterMap SendWr.readTag).map q.pendingRead).count x
        + ((q.cq.filterMap Wc.readTag).map q.pendingRead).count x
        + (owned q.slots).count x + (q.responses.map (·.cmd)).count x := by
  simp only [places, unprocessed, reading, recvSlice, List.map_append, List.count_append]
  omega

@[simp] theorem count_waiting (q : RdmaQueue) (t : Nat) :
    q.waiting.count t = (q.poolWait.map (·.1)).count t + (q.readBatch.map (·.tag)).count t
      + (q.sq.filterMap SendWr.readTag).count t + (q.cq.filterMap Wc.readTag).count t := by
  simp only [waiting, reading, List.count_append]
  omega

theorem Fresh.of_claimed {a : SlotArray Sqe} {cmd : Sqe} (h : WaitOnce q.waiting a)
    (hgoes : Goes a q.slots tag .free .receiving cmd) : q.Fresh tag where
  once := h.goes (h.count_goes (by simp) hgoes) hgoes
  receiving := by
    obtain ⟨s, hm, hs, -⟩ := hgoes
    rw [hm.slots, Function.update_self, hs]
  count := h.count_goes (by simp) hgoes

theorem filterMap_reads (rs : List PendingRead) :
    (rs.map SendWr.read).filterMap SendWr.readTag = rs.map (·.tag) := by
  rw [List.filterMap_map]
  exact congrFun List.filterMap_eq_map' rs

theorem filterMap_responseWrs (rs : List RdmaResp) :
    (rs.flatMap responseWrs).filterMap SendWr.readTag = [] := by
  simp only [List.filterMap_eq_nil_iff, List.mem_flatMap]
  rintro wr ⟨r, -, hwr⟩
  unfold responseWrs at hwr
  split at hwr <;> simp at hwr
  · rcases hwr with rfl | rfl <;> rfl
  · subst hwr
    rfl

theorem count_map_update (h : ts.count tag = 0) (f : Nat → Sqe) :
    ts.map (Function.update f tag sqe) = ts.map f := by
  refine List.map_congr_left fun t ht => Function.update_of_ne ?_ _ _
  rintro rfl
  exact List.count_eq_zero.1 h ht

theorem Stages.gains (h : Stages q tag sqe held q') (hf : q.Fresh tag) : Gains q q' sqe := by
  cases h with
  | copies hgoes =>
    refine ⟨fun x => ?_, hf.once.goes hf.count hgoes⟩
    have hown := owned_goes hgoes x
    simp [List.count_singleton] at hown ⊢
    omega
  | reads hagree =>
    have hread := hf.count
    rw [count_waiting] at hread
    refine ⟨fun x => ?_, (hf.once.agree hagree).wait hf.count ?_ fun t => ?_⟩
    · simp only [count_places, owned_agree hagree, List.map_append, List.map_cons, List.map_nil,
        Function.update_self, List.count_append,
        count_map_update (show (q.readBatch.map (·.tag)).count tag = 0 by omega),
        count_map_update (show (q.sq.filterMap SendWr.readTag).count tag = 0 by omega),
        count_map_update (show (q.cq.filterMap Wc.readTag).count tag = 0 by omega)]
      omega
    · rw [hagree.state, hf.receiving]
    · simp
      omega

theorem Routes.gains (h : Routes role pool q tag sqe held q') (hf : q.Fresh tag) :
    Gains q q' sqe := by
  cases h with
  | submits _ hgoes | fails _ hgoes =>
    refine ⟨fun x => ?_, hf.once.goes hf.count hgoes⟩
    have hown := owned_goes hgoes x
    simp [List.count_singleton] at hown ⊢
    omega
  | stages _ _ hst => exact hst.gains hf
  | waits =>
    refine ⟨fun x => ?_, hf.once.wait hf.count hf.receiving fun t => ?_⟩ <;> simp <;> omega

theorem Routes.kept (h : Routes role pool q tag sqe held q') :
    q'.cfg = q.cfg ∧ q'.answered = q.answered ∧ q.responses.length ≤ q'.responses.length := by
  cases h with
  | submits | waits => exact ⟨rfl, rfl, Nat.le_refl _⟩
  | fails => exact ⟨rfl, rfl, by simp⟩
  | stages _ _ hst => cases hst <;> exact ⟨rfl, rfl, Nat.le_refl _⟩

theorem Steps.kept {a : Action} (h : Steps role q a q') (ha : q.answered ≤ q.responses.length) :
    q'.cfg = q.cfg ∧ q.answered ≤ q'.answered ∧ q'.answered ≤ q'.responses.length := by
  cases h with
  | routes _ _ _ hr | unparks _ _ _ hr =>
    obtain ⟨hcfg, hans, hle⟩ := hr.kept
    exact ⟨hcfg, hans.symm.le, hans.le.trans (ha.trans hle)⟩
  | unwaits _ hst => cases hst <;> exact ⟨rfl, Nat.le_refl _, ha⟩
  | postResponses => exact ⟨rfl, ha, Nat.le_refl _⟩
  | finishes => exact ⟨rfl, Nat.le_refl _, ha.trans (by simp)⟩
  | _ => exact ⟨rfl, Nat.le_refl _, ha⟩

end RdmaQueue

/-! ## Whole runs -/

namespace Intake

open RdmaQueue Bufs

variable {r r' : Intake} {a : Action} {n : Nat}

/-- **Each command and each buffer is in one place.** -/
structure Placed (role : Role B) (n : Nat) (r : Intake) : Prop where
  bufs : r.q.bufs.Sound role False n []
  once : WaitOnce r.q.waiting r.q.slots
  places : ∀ x, r.arrived.count x = r.q.places.count x
  answered : r.q.answered ≤ r.q.responses.length

theorem Placed.bootstrapped (role : Role B) (cfg : QueueCfg) (connect : List UInt8) :
    Placed role cfg.sqsize (Intake.bootstrapped cfg connect) where
  bufs := sound_bootstrapped role False cfg connect
  once := fun t => Nat.zero_le _
  places := by
    intro x
    -- the Connect has been answered, so no slot owns a command
    have hown : (owned (RdmaQueue.bootstrapped cfg connect).slots).count x = 0 := by
      rw [count_owned]
      refine tally_eq_zero fun t _ => ?_
      by_cases ht : t = 0 <;>
        simp [RdmaQueue.bootstrapped, SlotArray.put, SlotArray.new, Slot.new, owns, ht]
    simpa [Intake.bootstrapped, RdmaQueue.bootstrapped, RdmaQueue.primed, RdmaQueue.places, unprocessed,
      reading] using hown.symm
  answered := Nat.le_refl 0

/-- What a step adds to the places has arrived by it. -/
theorem Placed.steps {q' : RdmaQueue} (h : Placed role n r) (hs : Steps role r.q a q') :
    (∀ x, q'.places.count x = r.q.places.count x + (arrivals q' a).count x) ∧
      WaitOnce q'.waiting q'.slots := by
  cases hs with
  | @arrives idx bytes buf hp hw =>
    refine ⟨fun x => ?_, h.once.mono fun t => by simp⟩
    -- the buffer was posted, so no other completion is about it
    have hsame : (r.q.cq.filterMap Wc.buf).map (fun i =>
        commandOf (Function.update r.q.recvBuf idx buf i).bytes)
          = (r.q.cq.filterMap Wc.buf).map fun i => commandOf (r.q.recvBuf i).bytes := by
      refine List.map_congr_left fun i hi => ?_
      have hin : i ∈ r.q.bufs.inUse := by
        simp only [Bufs.inUse, List.mem_append]
        exact .inl (.inl hi)
      rw [Function.update_of_ne (h.bufs.apart hp hin)]
    simp [hsame, recvSlice, Wc.buf]
    omega
  | @sends host wr rest slots hsq hagree =>
    refine ⟨fun x => ?_, (h.once.agree hagree).mono fun t => ?_⟩ <;> cases wr <;>
      simp [hsq, wcOf, Wc.buf, owned_agree hagree, List.count_cons]
    all_goals omega
  | parks hcq =>
    refine ⟨fun x => ?_, h.once.mono fun t => by simp [hcq, takenUp]⟩
    simp [hcq, Wc.buf, takenUp, capsule, recvSlice, commandOf, List.count_cons]
    omega
  | @routes pool idx tag rest slots q' hcq _ hgoes hr =>
    have honce : WaitOnce { r.q.takenUp role idx rest with slots }.waiting r.q.slots :=
      h.once.mono fun t => by simp [hcq, takenUp]
    have hgains := hr.gains (.of_claimed honce hgoes)
    refine ⟨fun x => ?_, hgains.once⟩
    have hown := owned_goes hgoes x
    simp at hown
    simp [hgains.places, hcq, Wc.buf, takenUp, capsule, recvSlice, commandOf, List.count_cons, hown]
    omega
  | @hasRead pool tag rest slots hcq hgoes =>
    have hwait : ∀ t, r.q.waiting.count t
        = ({ r.q with cq := rest }.waiting).count t + [tag].count t := by
      intro t
      simp [hcq, List.count_cons]
      omega
    have honce : WaitOnce { r.q with cq := rest }.waiting r.q.slots :=
      h.once.mono fun t => by rw [hwait]; exact Nat.le_add_right _ _
    refine ⟨fun x => ?_, honce.goes ?_ hgoes⟩
    · have hown := owned_goes hgoes x
      simp [hcq, Wc.buf, List.count_cons] at hown ⊢
      omega
    · have hle := h.once tag
      rw [hwait, List.count_singleton_self] at hle
      split at hle <;> omega
  | @hasSent pool wc tag rest slots inflight hcq hkind hdone =>
    have hnone : wc.buf = none ∧ wc.readTag = none := by
      rcases hkind with rfl | rfl <;> exact ⟨rfl, rfl⟩
    have honce : WaitOnce { r.q with cq := rest }.waiting r.q.slots :=
      h.once.mono fun t => by simp [hcq]
    rcases hdone with rfl | hgoes
    · exact ⟨fun x => by simp [hcq, hnone, -Wc.readTag], honce⟩
    · refine ⟨fun x => ?_, honce.goes (honce.count_goes (by simp) hgoes) hgoes⟩
      have hown := owned_goes hgoes x
      simp at hown
      simp [hcq, hnone, hown, -Wc.readTag]
  | @unwaits pool tag sqe held rest q₁ hwait hst =>
    have hcount : ∀ t, r.q.waiting.count t
        = ({ r.q with poolWait := rest }.waiting).count t + [tag].count t := by
      intro t
      simp [hwait, List.count_cons]
      omega
    have hst' : Stages { r.q with poolWait := rest } tag sqe held { q₁ with poolWait := rest } := by
      cases hst with
      | copies hgoes => exact .copies hgoes
      | reads hagree => exact .reads hagree
    have hle := h.once tag
    rw [hcount, List.count_singleton_self] at hle
    have hgains := hst'.gains
      { once := h.once.mono fun t => by rw [hcount]; exact Nat.le_add_right _ _
        receiving := by
          by_contra hne
          rw [if_neg hne] at hle
          omega
        count := by split at hle <;> omega }
    refine ⟨fun x => ?_, hgains.once⟩
    simp [hgains.places, hwait, List.count_cons]
    omega
  | @unparks pool tag sqe held rest slots q' hparked _ hgoes hr =>
    have hgains := hr.gains (Fresh.of_claimed h.once hgoes)
    refine ⟨fun x => ?_, hgains.once⟩
    have hown := owned_goes hgoes x
    simp at hown
    simp [hgains.places, hparked, List.count_cons, hown]
    omega
  | postReads =>
    refine ⟨fun x => ?_, h.once.mono fun t => ?_⟩ <;>
      simp only [postReadsBatch, count_places, count_waiting, arrivals, List.filterMap_append,
        filterMap_reads, List.map_append, List.count_append, List.map_nil, List.count_nil] <;>
      omega
  | postResponses =>
    refine ⟨fun x => ?_, h.once.mono fun t => ?_⟩ <;>
      simp [postResponsesBatch, filterMap_responseWrs]
  | takes hgoes | finishes hgoes =>
    refine ⟨fun x => ?_, h.once.goes (h.once.count_goes (by simp) hgoes) hgoes⟩
    have hown := owned_goes hgoes x
    simp [List.count_singleton] at hown ⊢
    omega

theorem Placed.step (h : Placed role n r) (hs : step role r a = some r') : Placed role n r' := by
  obtain ⟨q', hq, rfl⟩ := Option.map_eq_some_iff.1 hs
  have hsteps := step_spec hq
  obtain ⟨hplaces, honce⟩ := h.steps hsteps
  exact {
    bufs := hsteps.sound h.bufs (by simp)
    once := honce
    places := fun x => by rw [List.count_append, h.places, hplaces]
    answered := (hsteps.kept h.answered).2.2 }

structure FlowOk (role : Role B) (n : Nat) (r : Intake) : Prop extends Placed role n r where
  size : r.q.cfg.sqsize = n
  within : r.arrived.length ≤ r.q.answered + n

theorem FlowOk.step (h : FlowOk role n r) (ha : r.HostWithin a) (hs : step role r a = some r') :
    FlowOk role n r' := by
  have hplaced := h.toPlaced.step hs
  obtain ⟨q', hq, rfl⟩ := Option.map_eq_some_iff.1 hs
  obtain ⟨hcfg, hans, -⟩ := (step_spec hq).kept h.answered
  refine { hplaced with size := by rw [← h.size, ← hcfg], within := ?_ }
  have hle := h.within
  have hsize := h.size
  cases a with
  | arrive idx bytes =>
    simp only [HostWithin] at ha
    simp only [arrivals, List.length_append, List.length_singleton]
    omega
  | _ =>
    simp only [arrivals, List.append_nil]
    omega

theorem Placed.length (h : Placed role n r) :
    r.arrived.length = r.q.unprocessed.length + r.q.parked.length + r.q.poolWait.length
      + r.q.reading.length + (owned r.q.slots).length + r.q.responses.length := by
  rw [(List.perm_iff_count.2 h.places).length_eq]
  simp only [RdmaQueue.places, List.length_append, List.length_map]

/-- A capsule that is still to be handled leaves one place fewer to park. -/
theorem FlowOk.parked_lt (h : FlowOk role n r) {idx : Nat} (hc : Wc.recv idx ∈ r.q.cq) :
    r.q.parked.length < n := by
  have hpos : 0 < r.q.unprocessed.length := by
    rw [unprocessed, List.length_map]
    exact List.length_pos_of_mem (List.mem_filterMap.2 ⟨_, hc, rfl⟩)
  have hlen := h.length
  have hwithin := h.within
  have hans := h.answered
  omega

theorem FlowOk.posted (h : FlowOk role n r) :
    n ≤ r.q.posted.length + (r.arrived.length - r.q.answered) := by
  have hhomes := h.bufs.homes.length_eq
  simp only [Bufs.homes, Bufs.inUse, RdmaQueue.bufs, List.length_append, List.length_nil,
    List.length_range] at hhomes
  have hlen := h.length
  rw [unprocessed, List.length_map] at hlen
  have hparked := List.length_filterMap_le (·.2) r.q.parked
  have hwait := List.length_filterMap_le (·.2.2) r.q.poolWait
  have hans := h.answered
  omega

end Intake

open Intake RdmaQueue

/-- **Each capsule and each receive buffer is in one place, in every run**, and a buffer that is held
is held for an in-capsule write. With a host that keeps within the queue size, a capsule always finds
room on the parking queue, and there is a posted buffer for every capsule the host may still send. -/
theorem capsules_and_buffers_have_one_place (role : Role B) (cfg : QueueCfg)
    (connect : List UInt8) (as : List Action) (r : Intake)
    (hrun : runFrom (Intake.step role) (Intake.bootstrapped cfg connect) as = some r) :
    r.arrived.Perm r.q.places ∧ r.q.bufs.homes.Perm (List.range cfg.sqsize) ∧
      (∀ sqe idx, (sqe, some idx) ∈ r.q.parked ++ r.q.poolWait.map (·.2) →
        heldInline role sqe = true) ∧
      (StepsOk (Intake.step role) HostWithin (Intake.bootstrapped cfg connect) as →
        (∀ idx, Wc.recv idx ∈ r.q.cq → r.q.parked.length < r.q.cfg.sqsize) ∧
          r.q.cfg.sqsize ≤ r.q.posted.length + (r.arrived.length - r.q.answered)) := by
  have hplaced := @runFrom_invariant _ _ (Intake.step role) (Placed role cfg.sqsize)
    (fun h hs => h.step hs) as _ _ (Placed.bootstrapped role cfg connect) hrun
  refine ⟨List.perm_iff_count.2 hplaced.places, ?_, fun sqe idx hm => ?_, fun hok => ?_⟩
  · have hhomes := hplaced.bufs.homes
    rwa [List.append_nil] at hhomes
  · rcases List.mem_append.1 hm with hm | hm
    · exact (hplaced.bufs.parked sqe idx hm).1
    · obtain ⟨⟨tag, w⟩, hw, rfl⟩ := List.mem_map.1 hm
      exact (hplaced.bufs.waiting tag _ idx hw).1.1
  · have hstart : FlowOk role cfg.sqsize (Intake.bootstrapped cfg connect) :=
      { Placed.bootstrapped role cfg connect with size := rfl, within := Nat.zero_le _ }
    have hflow := @runFrom_invariant_of _ _ (Intake.step role) (FlowOk role cfg.sqsize) HostWithin
      (fun h ha hs => h.step ha hs) as _ _ hstart hok hrun
    rw [hflow.size]
    exact ⟨fun idx hc => hflow.parked_lt hc, hflow.posted⟩

/-- Before the response to the Connect is out, a write waits for pages and a second one for a tag. -/
def twoDeferred : List Action :=
  [.arrive 1 (writeByte.asBytes ++ [7]), .arrive 0 (writeByte.asBytes ++ [8]), .reap emptyPool,
    .reap emptyPool]

/-- Both buffers are held, and the host may send no more. -/
theorem capsules_and_buffers_have_one_place_deferred :
    ∃ r, runFrom (Intake.step (.io (IoState.new Unit))) (Intake.bootstrapped twoSlots connectCapsule)
        twoDeferred = some r ∧
      r.q.parked = [(writeByte, some 0)] ∧ r.q.poolWait = [(1, writeByte, some 1)] ∧
      r.arrived.Perm r.q.places ∧ r.q.bufs.homes.Perm [0, 1] ∧
      r.q.cfg.sqsize ≤ r.q.posted.length + (r.arrived.length - r.q.answered) := by
  have hends : (runFrom (Intake.step (.io (IoState.new Unit)))
      (Intake.bootstrapped twoSlots connectCapsule) twoDeferred).map
        (fun r => (r.q.parked, r.q.poolWait))
      = some ([(writeByte, some 0)], [(1, writeByte, some 1)]) := by decide +kernel
  obtain ⟨r, hr, hq⟩ := Option.map_eq_some_iff.1 hends
  obtain ⟨hparked, hwait⟩ := Prod.mk.inj hq
  obtain ⟨hplaces, hhomes, -, hflow⟩ := capsules_and_buffers_have_one_place _ _ _ _ r hr
  exact ⟨r, hr, hparked, hwait, hplaces, hhomes, (hflow (by decide +kernel)).2⟩

end Ioutgt.Rdma
