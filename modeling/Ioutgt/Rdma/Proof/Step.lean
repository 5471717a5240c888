import Mathlib.Data.List.Count
import Ioutgt.Core.Proof.Pool
import Ioutgt.Core.Proof.SlotQ
import Ioutgt.Rdma.Order

/-!
# What a step of the queue does

The functions of the reap loop, the slot tasks and the NIC, read backwards: what has become of a
queue that went through one.

* `Stages`, `Routes`: what staging a claimed command and routing it can come to;
* `Steps`: what a step can come to, and `step_spec`, that it does;
* `run_covered`: in every run the lease of a command that has not been taken covers its data.
-/

namespace Ioutgt.Rdma

open Lib Ioutgt.Core Ioutgt.Nvme

/-- The answers of a queue's own pool, whatever its arena holds. -/
def Pool.ofBufPool {W : Type} (p : BufPool W) (hwf : p.Wf) (arena : Nat → UInt8) : Pool where
  alloc := fun len => (p.alloc len).map fun lease => lease.1.map (Run.bytes arena)
  fits := by
    intro len segs h
    obtain ⟨lease, halloc, rfl⟩ := Option.map_eq_some_iff.1 h
    exact BufPool.alloc_leaseOk hwf halloc arena

namespace RdmaQueue

variable {B ε : Type} {role : Role B} {q q' : RdmaQueue} {pool : Pool} {tag idx : Nat} {sqe : Sqe}
  {held : Option Nat}

/-- The lease of a command that has not been taken covers its data. -/
def Covered (s : Slot Sqe) : Prop :=
  s.state = .receiving ∨ s.state = .ready → s.dataLen ≤ (segsOf s.data).flatten.length

theorem Covered.taken {s : Slot Sqe} (hr : s.state ≠ .receiving) (hd : s.state ≠ .ready) : Covered s :=
  fun h => (h.elim hr hd).elim

def Goes (a a' : SlotArray Sqe) (tag : Nat) (st st' : SlotState) (cmd : Sqe) : Prop :=
  ∃ s, SlotArray.Moved a a' tag st s ∧ s.state = st' ∧ s.cmd = cmd ∧
    (Covered (a.slots tag) → Covered s)

/-- Two slot arrays differ in data only. -/
structure Agree (a a' : SlotArray Sqe) : Prop where
  nslots : a'.nslots = a.nslots
  freeTags : a'.freeTags = a.freeTags
  state : ∀ t, (a'.slots t).state = (a.slots t).state
  cmd : ∀ t, (a'.slots t).cmd = (a.slots t).cmd
  covered : ∀ t, Covered (a.slots t) → Covered (a'.slots t)

theorem Agree.put {a : SlotArray Sqe} {s : Slot Sqe} (hs : s.state = (a.slots tag).state)
    (hc : s.cmd = (a.slots tag).cmd) (hcov : Covered (a.slots tag) → Covered s) :
    Agree a (a.put tag s) where
  nslots := rfl
  freeTags := rfl
  covered := by
    intro t
    by_cases ht : t = tag
    · rw [ht, SlotArray.put_self]
      exact hcov
    · rw [SlotArray.put_other _ _ ht]
      exact id
  state := by
    intro t
    by_cases ht : t = tag
    · rw [ht, SlotArray.put_self, hs]
    · rw [SlotArray.put_other _ _ ht]
  cmd := by
    intro t
    by_cases ht : t = tag
    · rw [ht, SlotArray.put_self, hc]
    · rw [SlotArray.put_other _ _ ht]

theorem Agree.refl (a : SlotArray Sqe) : Agree a a := ⟨rfl, rfl, fun _ => rfl, fun _ => rfl, fun _ => id⟩

/-- A command whose data has its lease: copied from the capsule, or to be read from the host. -/
inductive Stages (q : RdmaQueue) (tag : Nat) (sqe : Sqe) : Option Nat → RdmaQueue → Prop where
  | copies {idx : Nat} {slots : SlotArray Sqe} (goes : Goes q.slots slots tag .receiving .ready sqe) :
      Stages q tag sqe (some idx) { q with slots, posted := q.posted ++ [idx] }
  | reads {len rkey addr : Nat} {slots : SlotArray Sqe} (agree : Agree q.slots slots) :
      Stages q tag sqe none
        { q with
          slots
          pendingRead := Function.update q.pendingRead tag sqe
          readBatch := q.readBatch ++ [{ tag, len, rkey, addr }] }

inductive Routes (role : Role B) (pool : Pool) (q : RdmaQueue) (tag : Nat) (sqe : Sqe)
    (held : Option Nat) : RdmaQueue → Prop where
  | submits {slots : SlotArray Sqe} (data : hostDataIn role sqe.opcode = false)
      (goes : Goes q.slots slots tag .receiving .ready sqe) :
      Routes role pool q tag sqe held { q with slots }
  | fails {slots : SlotArray Sqe} {sqhd : Nat} {cqe : Cqe} (asks : asks role sqe held = none)
      (goes : Goes q.slots slots tag .receiving .responding (q.slots.slots tag).cmd) :
      Routes role pool q tag sqe held
        { q with
          slots
          sqhd
          responses := q.responses ++ [{ tag, cmd := sqe, cqe, dataLen := 0 }]
          posted := q.posted ++ held.toList }
  | stages {len : Nat} {q' : RdmaQueue} (asks : asks role sqe held = some len)
      (room : (pool.alloc len).isSome) (staged : Stages q tag sqe held q') :
      Routes role pool q tag sqe held q'
  | waits {len : Nat} (asks : asks role sqe held = some len) (full : pool.alloc len = none)
      (span : ∀ i, held = some i → inlineSpan sqe = .ok (parseInlineSgl sqe)) :
      Routes role pool q tag sqe held { q with poolWait := q.poolWait ++ [(tag, sqe, held)] }

/-- The queue with the oldest completion, that of the RECV into `idx`, taken up: a buffer that the
command does not keep is posted again. -/
def takenUp (role : Role B) (q : RdmaQueue) (idx : Nat) (rest : List Wc) : RdmaQueue :=
  { q with cq := rest, posted := q.posted ++ if (q.capsule role idx).2 = none then [idx] else [] }

def wcOf : SendWr → Wc
  | .read r => .read r.tag
  | .write tag => .write tag
  | .send tag => .send tag

/-- **What a step can come to.** -/
inductive Steps (role : Role B) (q : RdmaQueue) : Action → RdmaQueue → Prop where
  | arrives {idx : Nat} {bytes : List UInt8} {buf : Buf capsuleLen} (posted : idx ∈ q.posted)
      (written : (q.recvBuf idx).write 0 bytes = some buf) :
      Steps role q (.arrive idx bytes)
        { q with
          recvBuf := Function.update q.recvBuf idx buf
          posted := q.posted.erase idx
          byteLen := Function.update q.byteLen idx bytes.length
          cq := q.cq ++ [.recv idx] }
  | sends {host : List UInt8} {wr : SendWr} {rest : List SendWr} {slots : SlotArray Sqe}
      (sq : q.sq = wr :: rest) (agree : Agree q.slots slots) :
      Steps role q (.nicSend host) { q with sq := rest, cq := q.cq ++ [wcOf wr], slots }
  | parks {pool : Pool} {idx : Nat} {rest : List Wc} (cq : q.cq = .recv idx :: rest)
      (full : q.slots.freeTags = []) :
      Steps role q (.reap pool)
        { q.takenUp role idx rest with parked := q.parked ++ [q.capsule role idx] }
  | routes {pool : Pool} {idx tag : Nat} {rest : List Wc} {slots : SlotArray Sqe} {q' : RdmaQueue}
      (cq : q.cq = .recv idx :: rest) (free : q.slots.freeTags ≠ [])
      (goes : Goes q.slots slots tag .free .receiving (q.slots.slots tag).cmd)
      (routed : Routes role pool { q.takenUp role idx rest with slots } tag (q.capsule role idx).1
        (q.capsule role idx).2 q') :
      Steps role q (.reap pool) q'
  | hasRead {pool : Pool} {tag : Nat} {rest : List Wc} {slots : SlotArray Sqe}
      (cq : q.cq = .read tag :: rest)
      (goes : Goes q.slots slots tag .receiving .ready (q.pendingRead tag)) :
      Steps role q (.reap pool) { q with cq := rest, slots }
  | hasSent {pool : Pool} {wc : Wc} {tag : Nat} {rest : List Wc} {slots : SlotArray Sqe}
      {inflight : Nat → Nat} (cq : q.cq = wc :: rest) (kind : wc = .write tag ∨ wc = .send tag)
      (done : slots = q.slots ∨ Goes q.slots slots tag .responding .free (q.slots.slots tag).cmd) :
      Steps role q (.reap pool) { q with cq := rest, slots, inflight }
  | unwaits {pool : Pool} {tag : Nat} {sqe : Sqe} {held : Option Nat}
      {rest : List (Nat × Sqe × Option Nat)} {q' : RdmaQueue}
      (wait : q.poolWait = (tag, sqe, held) :: rest) (staged : Stages q tag sqe held q') :
      Steps role q (.drainWait pool) { q' with poolWait := rest }
  | unparks {pool : Pool} {tag : Nat} {sqe : Sqe} {held : Option Nat}
      {rest : List (Sqe × Option Nat)} {slots : SlotArray Sqe} {q' : RdmaQueue}
      (parked : q.parked = (sqe, held) :: rest) (free : q.slots.freeTags ≠ [])
      (goes : Goes q.slots slots tag .free .receiving (q.slots.slots tag).cmd)
      (routed : Routes role pool { q with slots, parked := rest } tag sqe held q') :
      Steps role q (.drainParked pool) q'
  | postReads : Steps role q .postReads q.postReadsBatch
  | postResponses : Steps role q .postResponses q.postResponsesBatch
  | takes {tag : Nat} {slots : SlotArray Sqe} {handed : List Handed}
      (goes : Goes q.slots slots tag .ready .executing (q.slots.slots tag).cmd) :
      Steps role q (.take tag) { q with slots, handed }
  | finishes {tag result status dataLen sqhd : Nat} {data : SlotData} {slots : SlotArray Sqe}
      {cqe : Cqe} (goes : Goes q.slots slots tag .executing .responding (q.slots.slots tag).cmd) :
      Steps role q (.finish tag result status dataLen data)
        { q with
          slots
          sqhd
          responses := q.responses ++ [{ tag, cmd := (q.slots.slots tag).cmd, cqe, dataLen }] }

theorem advanceSqhd_eq_ok {r : Nat × RdmaQueue} (h : (q.advanceSqhd : Checked ε _) = .ok r) :
    ∃ sqhd, r.2 = { q with sqhd } := by
  unfold advanceSqhd at h
  split at h
  · obtain rfl := Except.ok.inj h
    exact ⟨q.sqhd, rfl⟩
  · obtain ⟨next, -, h⟩ := Checked.bind_eq_ok.1 h
    obtain rfl := Except.ok.inj h
    exact ⟨_, rfl⟩

theorem failRecv_eq_ok {status : Nat} (h : (q.failRecv tag sqe status : Checked ε _) = .ok q') :
    ∃ slots sqhd cqe, Goes q.slots slots tag .receiving .responding (q.slots.slots tag).cmd ∧
      q' = { q with
        slots, sqhd, responses := q.responses ++ [{ tag, cmd := sqe, cqe, dataLen := 0 }] } := by
  obtain ⟨slots, hs, h⟩ := Checked.bind_eq_ok.1 h
  obtain ⟨⟨n, q₁⟩, hr, h⟩ := Checked.bind_eq_ok.1 h
  obtain ⟨sqhd, rfl⟩ := advanceSqhd_eq_ok hr
  obtain rfl := Except.ok.inj h
  exact ⟨slots, sqhd, _, ⟨_, SlotArray.respondReceiving_moved hs, rfl, rfl,
    fun _ => .taken (by simp) (by simp)⟩, rfl⟩

theorem submit_eq_ok (h : (q.submit tag sqe : Checked ε _) = .ok q') :
    ∃ slots, Goes q.slots slots tag .receiving .ready sqe ∧ q' = { q with slots } := by
  obtain ⟨slots, hs, h⟩ := Checked.bind_eq_ok.1 h
  obtain rfl := Except.ok.inj h
  have hmoved := SlotArray.submit_moved hs
  exact ⟨slots, ⟨_, hmoved, rfl, rfl, fun hcov _ => hcov (.inl hmoved.was)⟩, rfl⟩

theorem onResponseDone_eq_ok (h : (q.onResponseDone tag : Checked ε _) = .ok q') :
    ∃ slots inflight,
      (slots = q.slots ∨ Goes q.slots slots tag .responding .free (q.slots.slots tag).cmd) ∧
        q' = { q with slots, inflight } := by
  unfold onResponseDone at h
  dsimp only at h
  split at h
  · obtain ⟨released, hr, h⟩ := Checked.bind_eq_ok.1 h
    obtain rfl := Except.ok.inj h
    exact ⟨_, _, .inr ⟨_, SlotArray.releaseTag_moved hr, rfl, rfl,
      fun _ => .taken (by simp) (by simp)⟩, rfl⟩
  · obtain rfl := Except.ok.inj h
    exact ⟨_, _, .inl rfl, rfl⟩

theorem tryStageInline_spec {off len : Nat} {r : Option RdmaQueue}
    (h : (q.tryStageInline pool tag sqe idx off len : Checked ε _) = .ok r) :
    (r = none → pool.alloc len = none) ∧
      ∀ q', r = some q' → (pool.alloc len).isSome ∧ Stages q tag sqe (some idx) q' := by
  unfold tryStageInline at h
  split at h
  · rename_i ha
    obtain rfl := Except.ok.inj h
    exact ⟨fun _ => ha, by simp⟩
  · rename_i segs ha
    obtain ⟨s, hs, h⟩ := Checked.bind_eq_ok.1 h
    obtain ⟨hlt, rfl⟩ := SlotArray.slot_eq_ok hs
    obtain ⟨slots, hsub, h⟩ := Checked.bind_eq_ok.1 h
    obtain rfl := Except.ok.inj h
    have hmoved := SlotArray.Moved.of_put hlt (by rfl) (SlotArray.submit_moved hsub)
    refine ⟨by simp, fun q' hq => ?_⟩
    obtain rfl := Option.some.inj hq
    refine ⟨by simp [ha], .copies ⟨_, hmoved, rfl, rfl, fun _ _ => ?_⟩⟩
    simp only [SlotArray.put_self, segsOf, writeSegs_flatten_length]
    exact (pool.fits _ _ ha).2

theorem tryStageWrite_spec {len : Nat} {r : Option RdmaQueue}
    (h : (q.tryStageWrite pool tag sqe len : Checked ε _) = .ok r) :
    (r = none → pool.alloc len = none) ∧
      ∀ q', r = some q' → (pool.alloc len).isSome ∧ Stages q tag sqe none q' := by
  unfold tryStageWrite at h
  split at h
  · rename_i ha
    obtain rfl := Except.ok.inj h
    exact ⟨fun _ => ha, by simp⟩
  · rename_i segs ha
    obtain ⟨s, hs, h⟩ := Checked.bind_eq_ok.1 h
    obtain ⟨-, rfl⟩ := SlotArray.slot_eq_ok hs
    obtain rfl := Except.ok.inj h
    refine ⟨by simp, fun q' hq => ?_⟩
    obtain rfl := Option.some.inj hq
    exact ⟨by simp [ha], .reads (.put rfl rfl fun _ _ => (pool.fits _ _ ha).2)⟩

theorem inlineSpan_ok {sqe : Sqe} {span : Nat × Nat} (h : inlineSpan sqe = .ok span) :
    span = parseInlineSgl sqe ∧ 0 < span.2 ∧ span.1 + span.2 ≤ icdLen := by
  rw [inlineSpan] at h
  by_cases ht : byteAt sqe.asBytes sglTypeOffset ≠ inlineSglType
  · rw [if_pos ht] at h
    cases h
  · rw [if_neg ht] at h
    split at h
    · cases h
    · rename_i hb
      have hs := Except.ok.inj h
      rw [Prod.mk.eta] at hs
      subst hs
      have hicd : icdLen < 2 ^ 64 - 1 := by decide
      refine ⟨rfl, ?_, ?_⟩ <;> omega

theorem routeCmd_spec (h : routeCmd role q pool tag sqe held = .ok q') :
    Routes role pool q tag sqe held q' := by
  unfold routeCmd at h
  split at h
  · rename_i hd
    obtain ⟨slots, hgoes, rfl⟩ := submit_eq_ok h
    exact .submits hd hgoes
  · rename_i hd
    cases held with
    | none =>
      dsimp only at h
      split at h
      · rename_i hlen
        obtain ⟨slots, sqhd, cqe, hgoes, rfl⟩ := failRecv_eq_ok h
        have hback : q.posted = q.posted ++ (none : Option Nat).toList := (List.append_nil _).symm
        rw [hback]
        exact .fails (by simp [asks, hd, hlen]) hgoes
      · rename_i hlen
        obtain ⟨staged, hs, h⟩ := Checked.bind_eq_ok.1 h
        obtain rfl := Except.ok.inj h
        have hasks : asks role sqe none = some (stagedLen sqe) := by simp [asks, hd, hlen]
        obtain ⟨hfull, hst⟩ := tryStageWrite_spec hs
        cases staged with
        | none => exact .waits hasks (hfull rfl) (by simp)
        | some q₁ => exact .stages hasks (hst q₁ rfl).1 (hst q₁ rfl).2
    | some i =>
      dsimp only at h
      cases hspan : inlineSpan sqe with
      | error status =>
        rw [hspan] at h
        obtain ⟨q₁, hf, h⟩ := Checked.bind_eq_ok.1 h
        obtain rfl := Except.ok.inj h
        obtain ⟨slots, sqhd, cqe, hgoes, rfl⟩ := failRecv_eq_ok hf
        exact .fails (by simp [asks, hd, hspan, Except.toOption]) hgoes
      | ok span =>
        rw [hspan] at h
        obtain ⟨staged, hs, h⟩ := Checked.bind_eq_ok.1 h
        obtain rfl := Except.ok.inj h
        have hasks : asks role sqe (some i) = some span.2 := by
          simp [asks, hd, hspan, Except.toOption]
        obtain ⟨hfull, hst⟩ := tryStageInline_spec hs
        cases staged with
        | none => exact .waits hasks (hfull rfl) fun _ _ => by rw [hspan, (inlineSpan_ok hspan).1]
        | some q₁ => exact .stages hasks (hst q₁ rfl).1 (hst q₁ rfl).2

theorem handleRecv_eq (role : Role B) (q : RdmaQueue) (pool : Pool) (idx : Nat) (rest : List Wc) :
    handleRecv role { q with cq := rest } pool idx
      = claimOrPark role (q.takenUp role idx rest) pool (q.capsule role idx).1
          (q.capsule role idx).2 := by
  unfold handleRecv
  dsimp only
  split
  · rename_i hh
    have hh : heldInline role (Sqe.readFromBytes (slice (q.recvSlice idx) 0 sqeLen)) = true := hh
    simp [takenUp, capsule, hh]
    rfl
  · rename_i hh
    have hh : ¬ heldInline role (Sqe.readFromBytes (slice (q.recvSlice idx) 0 sqeLen)) = true := hh
    simp [takenUp, capsule, hh]
    rfl

/-- **A step comes to what it can come to.** -/
theorem step_spec {a : Action} (h : Rdma.step role q a = some q') : Steps role q a q' := by
  cases a with
  | arrive idx bytes =>
    simp only [Rdma.step, RdmaQueue.arrive] at h
    split at h
    · obtain ⟨buf, hbuf, rfl⟩ := Option.map_eq_some_iff.1 h
      exact .arrives ‹_› hbuf
    · cases h
  | nicSend host =>
    simp only [Rdma.step, RdmaQueue.nicSend] at h
    split at h
    · cases h
    · obtain rfl := Option.some.inj h
      exact .sends ‹_› (.refl _)
    · obtain rfl := Option.some.inj h
      exact .sends ‹_› (.refl _)
    · split at h
      · split at h
        · rename_i r rest hsq _ segs hdata _
          obtain rfl := Option.some.inj h
          refine .sends hsq (.put ?_ ?_ fun hcov hst => ?_)
          · rfl
          · rfl
          · have hle := hcov hst
            rw [hdata] at hle
            show _ ≤ (writeSegs ..).1.flatten.length
            rw [writeSegs_flatten_length]
            exact hle
        · cases h
      · cases h
  | reap pool =>
    simp only [Rdma.step] at h
    cases hc : q.cq with
    | nil => simp [hc] at h
    | cons wc rest =>
      rw [hc] at h
      have hok := Checked.toOption_eq_some h
      cases wc with
      | recv idx =>
        rw [processCqe, handleRecv_eq] at hok
        obtain ⟨claimed, hclaim, hok⟩ := Checked.bind_eq_ok.1 hok
        obtain ⟨hfull, rfl⟩ | ⟨hfree, tag, slots, rfl, hmoved⟩ := SlotArray.claimTag_cases hclaim
        · dsimp only at hok
          split at hok
          · cases hok
          · obtain rfl := Except.ok.inj hok
            exact .parks hc hfull
        · exact .routes hc hfree ⟨_, hmoved, rfl, rfl, fun _ _ => Nat.zero_le _⟩ (routeCmd_spec hok)
      | read tag =>
        obtain ⟨slots, hgoes, rfl⟩ := submit_eq_ok hok
        exact .hasRead hc hgoes
      | write tag =>
        obtain ⟨slots, inflight, hdone, rfl⟩ := onResponseDone_eq_ok hok
        exact .hasSent hc (.inl rfl) hdone
      | send tag =>
        obtain ⟨slots, inflight, hdone, rfl⟩ := onResponseDone_eq_ok hok
        exact .hasSent hc (.inr rfl) hdone
  | drainWait pool =>
    have hok := Checked.toOption_join_eq_some h
    unfold RdmaQueue.drainWait at hok
    split at hok
    · cases hok
    · rename_i tag sqe held rest hw
      obtain ⟨staged, hs, hok⟩ := Checked.bind_eq_ok.1 hok
      obtain ⟨q₁, rfl, rfl⟩ := Option.map_eq_some_iff.1 (Except.ok.inj hok)
      cases held with
      | none => exact .unwaits hw ((tryStageWrite_spec hs).2 q₁ rfl).2
      | some idx => exact .unwaits hw ((tryStageInline_spec hs).2 q₁ rfl).2
  | drainParked pool =>
    have hok := Checked.toOption_join_eq_some h
    unfold RdmaQueue.drainParked at hok
    split at hok
    · cases hok
    · rename_i sqe held rest hp
      obtain ⟨claimed, hclaim, hok⟩ := Checked.bind_eq_ok.1 hok
      obtain ⟨-, rfl⟩ | ⟨hfree, tag, slots, rfl, hmoved⟩ := SlotArray.claimTag_cases hclaim
      · cases hok
      · obtain ⟨q₁, hr, hok⟩ := Checked.bind_eq_ok.1 hok
        obtain rfl := Option.some.inj (Except.ok.inj hok)
        exact .unparks hp hfree ⟨_, hmoved, rfl, rfl, fun _ _ => Nat.zero_le _⟩ (routeCmd_spec hr)
  | postReads =>
    obtain rfl := Option.some.inj h
    exact .postReads
  | postResponses =>
    obtain rfl := Option.some.inj h
    exact .postResponses
  | take tag =>
    obtain ⟨taken, ht, h⟩ := Checked.bind_eq_ok.1 (Checked.toOption_join_eq_some h)
    cases taken with
    | none => cases h
    | some taken =>
      obtain ⟨s, -, h⟩ := Checked.bind_eq_ok.1 h
      obtain rfl := Option.some.inj (Except.ok.inj h)
      exact .takes ⟨_, SlotArray.awaitCommand_moved ht, rfl, rfl, fun _ => .taken (by simp) (by simp)⟩
  | finish tag result status dataLen data =>
    obtain ⟨s, hs, h⟩ := Checked.bind_eq_ok.1 (Checked.toOption_eq_some h)
    obtain ⟨hlt, rfl⟩ := SlotArray.slot_eq_ok hs
    obtain ⟨⟨n, q₁⟩, hr, h⟩ := Checked.bind_eq_ok.1 h
    obtain ⟨sqhd, rfl⟩ := advanceSqhd_eq_ok hr
    obtain ⟨slots, hb, h⟩ := Checked.bind_eq_ok.1 h
    obtain rfl := Except.ok.inj h
    have hmoved := SlotArray.Moved.of_put hlt (by rfl) (SlotArray.beginRespond_moved hb)
    exact .finishes ⟨_, hmoved, rfl, by simp, fun _ => .taken (by simp) (by simp)⟩

/-! ## The buffer covers what was delivered -/

theorem Goes.covered {a a' : SlotArray Sqe} {st st' : SlotState} {cmd : Sqe}
    (h : Goes a a' tag st st' cmd) (hc : ∀ t, Covered (a.slots t)) : ∀ t, Covered (a'.slots t) := by
  obtain ⟨s, hm, -, -, hcov⟩ := h
  intro t
  rw [hm.slots]
  by_cases ht : t = tag
  · rw [ht, Function.update_self]
    exact hcov (hc tag)
  · rw [Function.update_of_ne ht]
    exact hc t

theorem Stages.covered (h : Stages q tag sqe held q') (hc : ∀ t, Covered (q.slots.slots t)) :
    ∀ t, Covered (q'.slots.slots t) := by
  cases h with
  | copies hgoes => exact hgoes.covered hc
  | reads hagree => exact fun t => hagree.covered t (hc t)

theorem Routes.covered (h : Routes role pool q tag sqe held q')
    (hc : ∀ t, Covered (q.slots.slots t)) : ∀ t, Covered (q'.slots.slots t) := by
  cases h with
  | submits _ hgoes | fails _ hgoes => exact hgoes.covered hc
  | stages _ _ hst => exact hst.covered hc
  | waits => exact hc

theorem Steps.covered {a : Action} (h : Steps role q a q') (hc : ∀ t, Covered (q.slots.slots t)) :
    ∀ t, Covered (q'.slots.slots t) := by
  cases h with
  | routes _ _ hgoes hr | unparks _ _ hgoes hr => exact hr.covered (hgoes.covered hc)
  | unwaits _ hst => exact hst.covered hc
  | sends _ hagree => exact fun t => hagree.covered t (hc t)
  | hasRead _ hgoes | takes hgoes | finishes hgoes => exact hgoes.covered hc
  | hasSent _ _ hdone =>
    rcases hdone with rfl | hgoes
    · exact hc
    · exact hgoes.covered hc
  | arrives | parks | postReads | postResponses => exact hc

theorem covered_bootstrapped (cfg : Tcp.QueueCfg) (connect : List UInt8) (t : Nat) :
    Covered ((bootstrapped cfg connect).slots.slots t) := by
  intro _
  by_cases ht : t = 0 <;> simp [bootstrapped, SlotArray.put, SlotArray.new, Slot.new, ht]

theorem run_covered {cfg : Tcp.QueueCfg} {connect : List UInt8} {as : List Action}
    (h : runFrom (Rdma.step role) (bootstrapped cfg connect) as = some q) :
    ∀ t, Covered (q.slots.slots t) :=
  @runFrom_invariant _ _ (Rdma.step role) (fun q => ∀ t, Covered (q.slots.slots t))
    (fun hc hs => (step_spec hs).covered hc) as _ _ (covered_bootstrapped cfg connect) h

end RdmaQueue

end Ioutgt.Rdma
