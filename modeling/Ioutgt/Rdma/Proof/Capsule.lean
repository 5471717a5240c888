import Mathlib.Tactic.Simps.Basic
import Ioutgt.Nvme.Proof.Io
import Ioutgt.Rdma.Proof.Step

/-!
# What an in-capsule write stores

The queue reads a capsule by its fixed stride and never by the length the NIC reported for it. So a
run says nothing about stale bytes exactly as long as every capsule comes whole.

* `Whole`: the received bytes hold the command and the payload its in-capsule descriptor names;
* `Sound`: each buffer is in one place, and in a run of whole capsules a command that holds one has
  its payload inside the received bytes;
* `step_withBuf`, `Alike.step`: two queues that differ only outside the received bytes take the same
  steps;
* `short_capsule_shows_leftover`: without a whole payload they do not.
-/

namespace Ioutgt.Rdma

open Lib Ioutgt.Core Ioutgt.Nvme Ioutgt.Tcp

variable {B ε : Type} {role : Role B} {q q' q₂ : RdmaQueue} {b : Nat → Buf capsuleLen} {pool : Pool}
  {tag : Nat} {sqe : Sqe} {wc : Wc} {rest : List Wc} {bytes : List UInt8}

/-! ## Whole capsules -/

def commandOf (bytes : List UInt8) : Sqe := Sqe.readFromBytes (slice bytes 0 sqeLen)

/-- The payload the command names in its capsule, if it is taken at all, ends within `n` bytes. -/
def PayloadWithin (sqe : Sqe) (n : Nat) : Prop :=
  ∀ span, inlineSpan sqe = .ok span → sqeLen + span.1 + span.2 ≤ n

instance (sqe : Sqe) (n : Nat) : Decidable (PayloadWithin sqe n) :=
  match h : inlineSpan sqe with
  | .error _ => .isTrue fun _ hs => nomatch h.symm.trans hs
  | .ok span => decidable_of_iff (sqeLen + span.1 + span.2 ≤ n)
      ⟨fun hle _ hs => Except.ok.inj (h.symm.trans hs) ▸ hle, fun hp => hp span h⟩

/-- Everything the queue reads of the capsule was received. -/
def Whole (role : Role B) (bytes : List UInt8) : Prop :=
  sqeLen ≤ bytes.length ∧
    (heldInline role (commandOf bytes) = true → PayloadWithin (commandOf bytes) bytes.length)

instance (role : Role B) (bytes : List UInt8) : Decidable (Whole role bytes) :=
  inferInstanceAs (Decidable (_ ∧ _))

def Action.Whole (role : Role B) : Action → Prop
  | .arrive _ bytes => Rdma.Whole role bytes
  | _ => True

@[simps] def RdmaQueue.withBuf (q : RdmaQueue) (b : Nat → Buf capsuleLen) : RdmaQueue :=
  { q with recvBuf := b }

/-! ## Steps over other buffer contents -/

namespace RdmaQueue

theorem advanceSqhd_withBuf :
    ((q.withBuf b).advanceSqhd : Checked ε _)
      = (fun r => (r.1, r.2.withBuf b)) <$> q.advanceSqhd := by
  unfold advanceSqhd
  rw [withBuf_cfg, withBuf_sqhd]
  split
  · rfl
  · exact Checked.bind_same fun _ => rfl

theorem failRecv_withBuf (tag : Nat) (sqe : Sqe) (status : Nat) :
    ((q.withBuf b).failRecv tag sqe status : Checked ε _)
      = (·.withBuf b) <$> q.failRecv tag sqe status := by
  refine Checked.bind_same fun slots => ?_
  exact Checked.bind_map (advanceSqhd_withBuf (q := { q with slots })) fun _ => rfl

theorem tryStageInline_withBuf {idx off len : Nat}
    (h : slice (b idx).bytes (sqeLen + off) len = slice (q.recvSlice idx) (sqeLen + off) len) :
    ((q.withBuf b).tryStageInline pool tag sqe idx off len : Checked ε _)
      = Option.map (·.withBuf b) <$> q.tryStageInline pool tag sqe idx off len := by
  have hr : (q.withBuf b).recvSlice idx = (b idx).bytes := rfl
  unfold tryStageInline
  cases pool.alloc len with
  | none => rfl
  | some segs =>
    simp only [hr, h, withBuf_slots]
    refine Checked.bind_same fun s => ?_
    exact Checked.bind_same fun _ => rfl

theorem tryStageWrite_withBuf (pool : Pool) (tag : Nat) (sqe : Sqe) (len : Nat) :
    ((q.withBuf b).tryStageWrite pool tag sqe len : Checked ε _)
      = Option.map (·.withBuf b) <$> q.tryStageWrite pool tag sqe len := by
  unfold tryStageWrite
  cases pool.alloc len with
  | none => rfl
  | some segs => exact Checked.bind_same fun _ => rfl

theorem submit_withBuf (tag : Nat) (sqe : Sqe) :
    ((q.withBuf b).submit tag sqe : Checked ε _) = (·.withBuf b) <$> q.submit tag sqe :=
  Checked.bind_same fun _ => rfl

theorem orWait_withBuf (tag : Nat) (sqe : Sqe) (held : Option Nat) (r : Option RdmaQueue) :
    (q.withBuf b).orWait tag sqe held (r.map (·.withBuf b))
      = (q.orWait tag sqe held r).withBuf b := by
  cases r <;> rfl

/-- The payload a held command names is the same in `b`. -/
def SamePayload (q : RdmaQueue) (b : Nat → Buf capsuleLen) (sqe : Sqe) (idx : Nat) : Prop :=
  ∀ span, inlineSpan sqe = .ok span →
    slice (b idx).bytes (sqeLen + span.1) span.2 = slice (q.recvSlice idx) (sqeLen + span.1) span.2

theorem routeCmd_withBuf (pool : Pool) (tag : Nat) {held : Option Nat}
    (h : ∀ idx, held = some idx → q.SamePayload b sqe idx) :
    routeCmd role (q.withBuf b) pool tag sqe held
      = (·.withBuf b) <$> routeCmd role q pool tag sqe held := by
  unfold routeCmd
  split
  · exact submit_withBuf tag sqe
  · cases held with
    | none =>
      dsimp only
      split
      · exact failRecv_withBuf tag sqe _
      · exact Checked.bind_map (tryStageWrite_withBuf pool tag sqe _) fun r =>
          congrArg Except.ok (orWait_withBuf tag sqe none r)
    | some idx =>
      dsimp only
      cases hspan : inlineSpan sqe with
      | error status => exact Checked.bind_map (failRecv_withBuf tag sqe status) fun _ => rfl
      | ok span =>
        exact Checked.bind_map (tryStageInline_withBuf (h idx rfl span hspan)) fun r =>
          congrArg Except.ok (orWait_withBuf tag sqe (some idx) r)

theorem claimOrPark_withBuf {held : Option Nat}
    (h : ∀ idx, held = some idx → q.SamePayload b sqe idx) :
    claimOrPark role (q.withBuf b) pool sqe held
      = (·.withBuf b) <$> claimOrPark role q pool sqe held := by
  refine Checked.bind_same fun claimed => ?_
  cases claimed with
  | none =>
    simp only [withBuf_parked, withBuf_cfg]
    split <;> rfl
  | some claimed => exact routeCmd_withBuf (q := { q with slots := claimed.2 }) pool claimed.1 h

theorem handleRecv_withBuf {idx : Nat} (hc : commandOf (b idx).bytes = commandOf (q.recvSlice idx))
    (h : heldInline role (commandOf (q.recvSlice idx)) = true →
      q.SamePayload b (commandOf (q.recvSlice idx)) idx) :
    handleRecv role (q.withBuf b) pool idx = (·.withBuf b) <$> handleRecv role q pool idx := by
  unfold commandOf at hc h
  unfold handleRecv
  rw [show (q.withBuf b).recvSlice idx = (b idx).bytes from rfl, hc]
  dsimp only
  by_cases hi : heldInline role (Sqe.readFromBytes (slice (q.recvSlice idx) 0 sqeLen)) = true
  · rw [if_pos hi, if_pos hi]
    refine claimOrPark_withBuf fun i he => ?_
    obtain rfl := Option.some.inj he
    exact h hi
  · rw [if_neg hi, if_neg hi]
    exact claimOrPark_withBuf (q := q.postRecv idx) fun i he => nomatch he

theorem onResponseDone_withBuf (tag : Nat) :
    ((q.withBuf b).onResponseDone tag : Checked ε _) = (·.withBuf b) <$> q.onResponseDone tag := by
  unfold onResponseDone
  rw [withBuf_inflight]
  dsimp only
  split
  · exact Checked.bind_same fun _ => rfl
  · rfl

theorem awaitCommand_withBuf (tag : Nat) :
    ((q.withBuf b).awaitCommand tag : Checked ε _)
      = Option.map (·.withBuf b) <$> q.awaitCommand tag := by
  refine Checked.bind_same fun taken => ?_
  cases taken with
  | none => rfl
  | some taken => exact Checked.bind_same fun _ => rfl

theorem finish_withBuf (tag result status dataLen : Nat) (data : SlotData) :
    ((q.withBuf b).finish tag result status dataLen data : Checked ε _)
      = (·.withBuf b) <$> q.finish tag result status dataLen data := by
  refine Checked.bind_same fun s => ?_
  refine Checked.bind_map advanceSqhd_withBuf fun r => ?_
  exact Checked.bind_same fun _ => rfl

end RdmaQueue

/-! ## Where the buffers are -/

structure Bufs where
  recvBuf : Nat → Buf capsuleLen
  byteLen : Nat → Nat
  posted : List Nat
  cq : List Wc
  parked : List (Sqe × Option Nat)
  poolWait : List (Nat × Sqe × Option Nat)

def RdmaQueue.bufs (q : RdmaQueue) : Bufs where
  recvBuf := q.recvBuf
  byteLen := q.byteLen
  posted := q.posted
  cq := q.cq
  parked := q.parked
  poolWait := q.poolWait

/-- A command that holds its capsule, of which `len` bytes were received: with all of its payload, if
capsules come whole. -/
def HeldOk (role : Role B) (whole : Prop) (sqe : Sqe) (len : Nat) : Prop :=
  heldInline role sqe = true ∧ (whole → PayloadWithin sqe len)

namespace Bufs

variable {s s' : Bufs} {inHand : List Nat} {held : Option Nat} {sqe : Sqe} {idx n : Nat} {w : Prop}

@[simp] theorem filterMap_cons_toList {α : Type} (f : α → Option Nat) (x : α) (xs : List α) :
    (x :: xs).filterMap f = (f x).toList ++ xs.filterMap f := by
  cases h : f x <;> simp [h]

def inUse (s : Bufs) : List Nat :=
  s.cq.filterMap Wc.buf ++ s.parked.filterMap (·.2) ++ s.poolWait.filterMap (·.2.2)

def homes (s : Bufs) : List Nat := s.posted ++ s.inUse

def received (s : Bufs) (idx : Nat) : List UInt8 := (s.recvBuf idx).bytes.take (s.byteLen idx)

/-- Each of the `n` buffers is in one place, `inHand` being those just taken up, and if capsules come
whole (`w`), whoever has one reads received bytes only. -/
structure Sound (role : Role B) (w : Prop) (n : Nat) (inHand : List Nat) (s : Bufs) : Prop where
  homes : (s.homes ++ inHand).Perm (List.range n)
  whole : w → ∀ idx, Wc.recv idx ∈ s.cq → Whole role (s.received idx)
  parked : ∀ sqe idx, (sqe, some idx) ∈ s.parked → HeldOk role w sqe (s.byteLen idx)
  waiting : ∀ tag sqe idx, (tag, sqe, some idx) ∈ s.poolWait →
    HeldOk role w sqe (s.byteLen idx) ∧ inlineSpan sqe = .ok (parseInlineSgl sqe)

def SameReceived (s : Bufs) (b : Nat → Buf capsuleLen) : Prop :=
  ∀ idx, idx ∉ s.posted → (b idx).bytes.take (s.byteLen idx) = s.received idx

/-- `s'` comes later, no capsule having arrived since `s`. -/
structure Later (s s' : Bufs) : Prop where
  recvBuf : s'.recvBuf = s.recvBuf
  byteLen : s'.byteLen = s.byteLen
  posted : s.posted ⊆ s'.posted

theorem SameReceived.later (h : s.SameReceived b) (hl : Later s s') : s'.SameReceived b := by
  intro idx hi
  unfold received
  rw [hl.recvBuf, hl.byteLen]
  exact h idx fun hm => hi (hl.posted hm)

theorem Sound.rehome {ns ns' : List Nat} (h : ns.Perm (List.range n))
    (hc : ∀ a, ns'.count a = ns.count a) : ns'.Perm (List.range n) :=
  (List.perm_iff_count.2 hc).trans h

theorem Sound.putBack (h : Sound role w n held.toList s) :
    Sound role w n [] { s with posted := s.posted ++ held.toList } where
  homes := by
    refine Sound.rehome h.homes fun a => ?_
    simp only [Bufs.homes, inUse, List.count_append, List.count_nil]
    omega
  whole := h.whole
  parked := h.parked
  waiting := h.waiting

theorem Sound.park (h : Sound role w n held.toList s)
    (hh : ∀ i, held = some i → HeldOk role w sqe (s.byteLen i)) :
    Sound role w n [] { s with parked := s.parked ++ [(sqe, held)] } where
  homes := by
    refine Sound.rehome h.homes fun a => ?_
    simp only [Bufs.homes, inUse, List.filterMap_append, filterMap_cons_toList, List.filterMap_nil,
      List.count_append, List.count_nil]
    omega
  whole := h.whole
  parked := by
    intro sqe' i hm
    rcases List.mem_append.1 hm with hm | hm
    · exact h.parked sqe' i hm
    · obtain ⟨rfl, rfl⟩ : sqe' = sqe ∧ some i = held := by simpa using hm
      exact hh i rfl
  waiting := h.waiting

theorem Sound.wait (h : Sound role w n held.toList s) (tag : Nat)
    (hh : ∀ i, held = some i →
      HeldOk role w sqe (s.byteLen i) ∧ inlineSpan sqe = .ok (parseInlineSgl sqe)) :
    Sound role w n [] { s with poolWait := s.poolWait ++ [(tag, sqe, held)] } where
  homes := by
    refine Sound.rehome h.homes fun a => ?_
    simp only [Bufs.homes, inUse, List.filterMap_append, filterMap_cons_toList, List.filterMap_nil,
      List.count_append, List.count_nil]
    omega
  whole := h.whole
  parked := h.parked
  waiting := by
    intro tag' sqe' i hm
    rcases List.mem_append.1 hm with hm | hm
    · exact h.waiting tag' sqe' i hm
    · obtain ⟨-, rfl, rfl⟩ : tag' = tag ∧ sqe' = sqe ∧ some i = held := by simpa using hm
      exact hh i rfl

theorem Sound.reap (h : Sound role w n [] s) (hc : s.cq = wc :: rest) :
    Sound role w n wc.buf.toList { s with cq := rest } where
  homes := by
    refine Sound.rehome h.homes fun a => ?_
    simp only [Bufs.homes, inUse, hc, filterMap_cons_toList, List.count_append, List.count_nil]
    omega
  whole := fun hw i hm => h.whole hw i (by rw [hc]; exact List.mem_cons_of_mem _ hm)
  parked := h.parked
  waiting := h.waiting

theorem Sound.complete (h : Sound role w n [] s) (hw : wc.buf = none) :
    Sound role w n [] { s with cq := s.cq ++ [wc] } where
  homes := by
    refine Sound.rehome h.homes fun a => ?_
    simp [Bufs.homes, inUse, hw]
  whole := by
    intro hwhole i hm
    rcases List.mem_append.1 hm with hm | hm
    · exact h.whole hwhole i hm
    · obtain rfl : Wc.recv i = wc := by simpa using hm
      cases hw
  parked := h.parked
  waiting := h.waiting

theorem Sound.unpark {rest : List (Sqe × Option Nat)} (h : Sound role w n [] s)
    (hp : s.parked = (sqe, held) :: rest) :
    Sound role w n held.toList { s with parked := rest } where
  homes := by
    refine Sound.rehome h.homes fun a => ?_
    simp only [Bufs.homes, inUse, hp, filterMap_cons_toList, List.count_append, List.count_nil]
    omega
  whole := h.whole
  parked := fun sqe' i hm => h.parked sqe' i (by rw [hp]; exact List.mem_cons_of_mem _ hm)
  waiting := h.waiting

theorem Sound.unwait {rest : List (Nat × Sqe × Option Nat)} (h : Sound role w n [] s)
    (hw : s.poolWait = (tag, sqe, held) :: rest) :
    Sound role w n held.toList { s with poolWait := rest } where
  homes := by
    refine Sound.rehome h.homes fun a => ?_
    simp only [Bufs.homes, inUse, hw, filterMap_cons_toList, List.count_append, List.count_nil]
    omega
  whole := h.whole
  parked := h.parked
  waiting := fun tag' sqe' i hm =>
    h.waiting tag' sqe' i (by rw [hw]; exact List.mem_cons_of_mem _ hm)

theorem Sound.apart {i : Nat} (h : Sound role w n [] s) (hp : idx ∈ s.posted) (hi : i ∈ s.inUse) :
    i ≠ idx := by
  have hn := h.homes.nodup_iff.2 List.nodup_range
  rw [List.append_nil] at hn
  exact fun he => (List.nodup_append.1 hn).2.2 idx hp i hi he.symm

theorem mem_inUse_cq (h : Wc.recv idx ∈ s.cq) : idx ∈ s.inUse := by
  simp only [inUse, List.mem_append, List.mem_filterMap]
  exact .inl (.inl ⟨_, h, rfl⟩)

theorem mem_inUse_parked (h : (sqe, some idx) ∈ s.parked) : idx ∈ s.inUse := by
  simp only [inUse, List.mem_append, List.mem_filterMap]
  exact .inl (.inr ⟨_, h, rfl⟩)

theorem mem_inUse_poolWait (h : (tag, sqe, some idx) ∈ s.poolWait) : idx ∈ s.inUse := by
  simp only [inUse, List.mem_append, List.mem_filterMap]
  exact .inr ⟨_, h, rfl⟩

theorem Sound.arrive {buf : Buf capsuleLen} (h : Sound role w n [] s) (hp : idx ∈ s.posted)
    (hbuf : buf.bytes.take bytes.length = bytes) (hw : w → Whole role bytes) :
    Sound role w n []
      { s with
        recvBuf := Function.update s.recvBuf idx buf
        posted := s.posted.erase idx
        byteLen := Function.update s.byteLen idx bytes.length
        cq := s.cq ++ [.recv idx] } where
  homes := by
    refine Sound.rehome h.homes fun a => ?_
    have hpos := List.count_pos_iff.2 hp
    simp only [Bufs.homes, inUse, List.filterMap_append, filterMap_cons_toList, List.filterMap_nil,
      List.count_append, List.count_nil, List.count_erase, Wc.buf, Option.toList_some,
      List.count_singleton]
    split
    · rename_i he
      obtain rfl : idx = a := by simpa using he
      omega
    · omega
  whole := by
    intro hwhole i hm
    rcases List.mem_append.1 hm with hm | hm
    · have hne := h.apart hp (mem_inUse_cq hm)
      simpa [received, Function.update_of_ne hne] using h.whole hwhole i hm
    · obtain rfl : i = idx := by simpa using hm
      simpa [received, hbuf] using hw hwhole
  parked := by
    intro sqe i hm
    have hne := h.apart hp (mem_inUse_parked hm)
    simpa [Function.update_of_ne hne] using h.parked sqe i hm
  waiting := by
    intro tag sqe i hm
    have hne := h.apart hp (mem_inUse_poolWait hm)
    simpa [Function.update_of_ne hne] using h.waiting tag sqe i hm

end Bufs

/-! ## What a step does with the buffers -/

namespace RdmaQueue

variable {idx n : Nat} {held : Option Nat} {w : Prop} {a : Action}

theorem commandOf_take {bs : List UInt8} {n : Nat} (h : sqeLen ≤ n) :
    commandOf (bs.take n) = commandOf bs := by
  unfold commandOf
  rw [slice_take (by omega)]

theorem received_whole (h : Whole role (q.bufs.received idx)) :
    sqeLen ≤ q.byteLen idx ∧ (heldInline role (commandOf (q.recvSlice idx)) = true →
      PayloadWithin (commandOf (q.recvSlice idx)) (q.byteLen idx)) := by
  have hlen : (q.bufs.received idx).length ≤ q.byteLen idx := List.length_take_le _ _
  have hsqe : sqeLen ≤ q.byteLen idx := h.1.trans hlen
  have hcmd : commandOf (q.bufs.received idx) = commandOf (q.recvSlice idx) := commandOf_take hsqe
  rw [← hcmd]
  exact ⟨hsqe, fun hh span hspan => (h.2 hh span hspan).trans hlen⟩

theorem sound_takenUp (hs : q.bufs.Sound role w n []) (hc : q.cq = .recv idx :: rest) :
    (q.takenUp role idx rest).bufs.Sound role w n (q.capsule role idx).2.toList ∧
      ∀ i, (q.capsule role idx).2 = some i →
        HeldOk role w (q.capsule role idx).1 (q.byteLen i) := by
  have hs' : ({ q.bufs with cq := rest } : Bufs).Sound role w n (some idx).toList := hs.reap hc
  have hmem : Wc.recv idx ∈ q.bufs.cq := by
    rw [show q.bufs.cq = q.cq from rfl, hc]
    exact List.mem_cons_self ..
  by_cases hh : heldInline role (commandOf (q.recvSlice idx)) = true
  · have hcap : q.capsule role idx = (commandOf (q.recvSlice idx), some idx) := by
      simpa [capsule, commandOf] using hh
    have htaken : (q.takenUp role idx rest).bufs = { q.bufs with cq := rest } := by
      simp [takenUp, hcap, bufs]
    rw [htaken, hcap]
    refine ⟨hs', fun i hi => ?_⟩
    obtain rfl := Option.some.inj hi
    exact ⟨hh, fun hw => (received_whole (hs.whole hw idx hmem)).2 hh⟩
  · have hcap : q.capsule role idx = (commandOf (q.recvSlice idx), none) := by
      simpa [capsule, commandOf] using hh
    rw [hcap]
    refine ⟨?_, by simp⟩
    have htaken : (q.takenUp role idx rest).bufs
        = { q.bufs with cq := rest, posted := q.posted ++ [idx] } := by
      simp [takenUp, hcap, bufs]
    rw [htaken]
    exact hs'.putBack

theorem Routes.sound (h : Routes role pool q tag sqe held q')
    (hs : q.bufs.Sound role w n held.toList)
    (hh : ∀ i, held = some i → HeldOk role w sqe (q.byteLen i)) : q'.bufs.Sound role w n [] := by
  cases h with
  | submits hd =>
    cases held with
    | none => exact hs
    | some i =>
      -- a command that brings no data holds no buffer
      have := (hh i rfl).1
      simp [heldInline, hd] at this
  | fails => exact hs.putBack
  | stages _ _ hst =>
    cases hst with
    | copies => exact hs.putBack
    | reads => exact hs
  | waits _ _ hspan => exact hs.wait tag fun i hi => ⟨hh i hi, hspan i hi⟩

theorem Routes.later (h : Routes role pool q tag sqe held q') : q.bufs.Later q'.bufs := by
  cases h with
  | submits => exact ⟨rfl, rfl, List.Subset.refl _⟩
  | fails => exact ⟨rfl, rfl, List.subset_append_left _ _⟩
  | stages _ _ hst =>
    cases hst with
    | copies => exact ⟨rfl, rfl, List.subset_append_left _ _⟩
    | reads => exact ⟨rfl, rfl, List.Subset.refl _⟩
  | waits => exact ⟨rfl, rfl, List.Subset.refl _⟩

theorem take_write {old new : Buf capsuleLen} (h : old.write 0 bytes = some new) :
    new.bytes.take bytes.length = bytes := by
  rw [(Buf.write_eq_some.1 h).2]
  simpa using @take_blit 0 _ old.bytes bytes (Nat.zero_le _)

/-- **Each buffer stays in one place**, and its capsule is read among the received bytes if capsules
come whole. -/
theorem Steps.sound (h : Steps role q a q') (hs : q.bufs.Sound role w n [])
    (ha : w → a.Whole role) : q'.bufs.Sound role w n [] := by
  cases h with
  | arrives hp hw => exact hs.arrive hp (take_write hw) ha
  | @sends host wr => exact hs.complete (by cases wr <;> rfl)
  | parks hc =>
    obtain ⟨hs, hh⟩ := sound_takenUp hs hc
    exact hs.park hh
  | routes hc _ _ hr =>
    obtain ⟨hs, hh⟩ := sound_takenUp hs hc
    exact hr.sound hs hh
  | hasRead hc => exact hs.reap hc
  | hasSent hc hkind =>
    have hs := hs.reap hc
    rcases hkind with rfl | rfl <;> exact hs
  | unwaits hw hst =>
    have hs := hs.unwait hw
    cases hst with
    | copies => exact hs.putBack
    | reads => exact hs
  | unparks hp _ _ hr =>
    refine hr.sound (hs.unpark hp) fun i hi => hs.parked _ i ?_
    rw [← hi, show q.bufs.parked = q.parked from rfl, hp]
    exact List.mem_cons_self ..
  | postReads | postResponses | takes | finishes => exact hs

theorem Steps.later (h : Steps role q a q') (ha : ∀ idx bytes, a ≠ .arrive idx bytes) :
    q.bufs.Later q'.bufs := by
  cases h with
  | arrives => exact absurd rfl (ha _ _)
  | parks => exact ⟨rfl, rfl, List.subset_append_left _ _⟩
  | routes _ _ _ hr =>
    exact ⟨hr.later.recvBuf, hr.later.byteLen,
      fun i hm => hr.later.posted (List.mem_append_left _ hm)⟩
  | unwaits _ hst =>
    cases hst with
    | copies => exact ⟨rfl, rfl, List.subset_append_left _ _⟩
    | reads => exact ⟨rfl, rfl, List.Subset.refl _⟩
  | unparks _ _ _ hr => exact ⟨hr.later.recvBuf, hr.later.byteLen, hr.later.posted⟩
  | sends | hasRead | hasSent | postReads | postResponses | takes | finishes =>
    exact ⟨rfl, rfl, List.Subset.refl _⟩

/-! ## The same step over other buffer contents -/

theorem samePayload_of_received (hb : q.bufs.SameReceived b) (hi : idx ∉ q.posted)
    (hw : PayloadWithin sqe (q.byteLen idx)) : q.SamePayload b sqe idx := by
  intro span hspan
  have hle := hw span hspan
  have htake : (b idx).bytes.take (q.byteLen idx) = (q.recvSlice idx).take (q.byteLen idx) := hb idx hi
  rw [← slice_take (n := q.byteLen idx) (by omega), htake]
  exact slice_take (by omega)

theorem processCqe_withBuf (pool : Pool) (hs : q.bufs.Sound role True n []) (hc : q.cq = wc :: rest)
    (hb : q.bufs.SameReceived b) :
    processCqe role ({ q with cq := rest }.withBuf b) pool wc
      = (·.withBuf b) <$> processCqe role { q with cq := rest } pool wc := by
  cases wc with
  | recv idx =>
    have hmem : Wc.recv idx ∈ q.bufs.cq := (hc ▸ List.mem_cons_self .. : Wc.recv idx ∈ q.cq)
    have hi : idx ∉ q.posted := fun hp => hs.apart hp (Bufs.mem_inUse_cq hmem) rfl
    obtain ⟨hsqe, hpay⟩ := received_whole (hs.whole trivial idx hmem)
    refine handleRecv_withBuf (q := { q with cq := rest }) ?_ fun hh =>
      samePayload_of_received (q := q) hb hi (hpay hh)
    have htake : (b idx).bytes.take (q.byteLen idx) = (q.recvSlice idx).take (q.byteLen idx) :=
      hb idx hi
    exact (commandOf_take hsqe).symm.trans ((congrArg commandOf htake).trans (commandOf_take hsqe))
  | read tag => exact submit_withBuf tag _
  | write tag | send tag => exact onResponseDone_withBuf tag

theorem restage_withBuf
    (h : ∀ idx, held = some idx →
      q.SamePayload b sqe idx ∧ inlineSpan sqe = .ok (parseInlineSgl sqe)) :
    ((q.withBuf b).restage pool tag sqe held : Checked ε _)
      = Option.map (·.withBuf b) <$> q.restage pool tag sqe held := by
  cases held with
  | none => exact tryStageWrite_withBuf pool tag sqe _
  | some idx =>
    obtain ⟨hp, hspan⟩ := h idx rfl
    exact tryStageInline_withBuf (hp _ hspan)

theorem drainWait_withBuf (pool : Pool) (hs : q.bufs.Sound role True n [])
    (hb : q.bufs.SameReceived b) :
    (q.withBuf b).drainWait pool = Option.map (·.withBuf b) <$> q.drainWait pool := by
  unfold drainWait
  rw [withBuf_poolWait]
  cases hw : q.poolWait with
  | nil => rfl
  | cons e rest =>
    obtain ⟨tag, sqe, held⟩ := e
    have hheld : ∀ idx, held = some idx →
        q.SamePayload b sqe idx ∧ inlineSpan sqe = .ok (parseInlineSgl sqe) := by
      rintro idx rfl
      have hmem : (tag, sqe, some idx) ∈ q.poolWait := by
        rw [hw]
        exact List.mem_cons_self ..
      obtain ⟨hok, hspan⟩ := hs.waiting tag sqe idx hmem
      have hi : idx ∉ q.posted := fun hp => hs.apart hp (Bufs.mem_inUse_poolWait hmem) rfl
      exact ⟨samePayload_of_received hb hi (hok.2 trivial), hspan⟩
    refine Checked.bind_map (restage_withBuf hheld) fun r => ?_
    cases r <;> rfl

theorem drainParked_withBuf (pool : Pool) (hs : q.bufs.Sound role True n [])
    (hb : q.bufs.SameReceived b) :
    (q.withBuf b).drainParked role pool = Option.map (·.withBuf b) <$> q.drainParked role pool := by
  unfold drainParked
  rw [withBuf_parked, withBuf_slots]
  cases hp : q.parked with
  | nil => rfl
  | cons e rest =>
    obtain ⟨sqe, held⟩ := e
    have hpay : ∀ idx, held = some idx → q.SamePayload b sqe idx := by
      rintro idx rfl
      have hmem : (sqe, some idx) ∈ q.parked := by
        rw [hp]
        exact List.mem_cons_self ..
      have hi : idx ∉ q.posted := fun h => hs.apart h (Bufs.mem_inUse_parked hmem) rfl
      exact samePayload_of_received hb hi ((hs.parked sqe idx hmem).2 trivial)
    refine Checked.bind_same fun claimed => ?_
    cases claimed with
    | none => rfl
    | some claimed =>
      have hsame := @routeCmd_withBuf _ role { q with slots := claimed.2, parked := rest } b _ pool
        claimed.1 _ hpay
      refine (congrArg (fun x : Checked Fatal _ => some <$> x) hsame).trans ?_
      simp only [Functor.map_map]
      rfl

theorem nicSend_withBuf (host : List UInt8) :
    (q.withBuf b).nicSend host = (q.nicSend host).map (·.withBuf b) := by
  unfold nicSend
  rw [withBuf_sq, withBuf_slots]
  cases q.sq with
  | nil => rfl
  | cons wr rest =>
    cases wr with
    | write tag | send tag => rfl
    | read r =>
      dsimp only
      cases (q.slots.slots r.tag).data with
      | leased segs =>
        dsimp only
        split <;> rfl
      | empty | ring => rfl

/-- **Two queues alike take the same step**, but for an arrival. -/
theorem step_withBuf (ha : ∀ idx bytes, a ≠ .arrive idx bytes)
    (hs : q.bufs.Sound role True n []) (hb : q.bufs.SameReceived b) :
    Rdma.step role (q.withBuf b) a = (Rdma.step role q a).map (·.withBuf b) := by
  cases a with
  | arrive idx bytes => exact absurd rfl (ha idx bytes)
  | reap pool =>
    simp only [Rdma.step, withBuf_cq]
    cases hc : q.cq with
    | nil => rfl
    | cons wc rest =>
      have hsame := processCqe_withBuf pool hs hc hb
      exact (congrArg Except.toOption hsame).trans (Checked.toOption_map _ _)
  | drainWait pool =>
    simp only [Rdma.step, drainWait_withBuf pool hs hb, Checked.toOption_join_map]
  | drainParked pool =>
    simp only [Rdma.step, drainParked_withBuf pool hs hb, Checked.toOption_join_map]
  | postReads | postResponses => rfl
  | take tag => simp only [Rdma.step, awaitCommand_withBuf, Checked.toOption_join_map]
  | finish tag result status dataLen data =>
    simp only [Rdma.step, finish_withBuf, Checked.toOption_map]
  | nicSend host => exact nicSend_withBuf host

/-! ## Runs -/

/-- `q₂` is `q` over buffers with the same received bytes. -/
def Alike (role : Role B) (n : Nat) (q q₂ : RdmaQueue) : Prop :=
  q.bufs.Sound role True n [] ∧ ∃ b, q₂ = q.withBuf b ∧ q.bufs.SameReceived b

theorem sound_bootstrapped (role : Role B) (w : Prop) (cfg : QueueCfg) (connect : List UInt8) :
    (bootstrapped cfg connect).bufs.Sound role w cfg.sqsize [] where
  homes := by
    obtain ⟨n, hn⟩ := Nat.exists_eq_succ_of_ne_zero (Nat.pos_iff_ne_zero.1 cfg.sqsize_pos)
    simp only [Bufs.homes, Bufs.inUse, bufs, bootstrapped, primed, hn, List.range_succ_eq_map,
      List.tail_cons, List.filterMap_nil, List.append_nil]
    exact List.perm_append_singleton 0 _
  whole := fun _ _ hm => nomatch hm
  parked := fun _ _ hm => nomatch hm
  waiting := fun _ _ _ hm => nomatch hm

theorem Alike.arrive (h : Alike role n q q₂) (hw : Whole role bytes) :
    Option.Rel (Alike role n) (q.arrive idx bytes) (q₂.arrive idx bytes) := by
  obtain ⟨hs, b, rfl, hb⟩ := h
  unfold RdmaQueue.arrive
  rw [withBuf_posted, withBuf_recvBuf]
  split
  · rename_i hp
    by_cases hfit : 0 + bytes.length ≤ capsuleLen
    · obtain ⟨buf, hbuf⟩ : ∃ buf, (q.recvBuf idx).write 0 bytes = some buf :=
        ⟨_, dif_pos hfit⟩
      obtain ⟨buf₂, hbuf₂⟩ : ∃ buf, (b idx).write 0 bytes = some buf := ⟨_, dif_pos hfit⟩
      rw [hbuf, hbuf₂]
      refine .some ⟨hs.arrive hp (take_write hbuf) fun _ => hw, Function.update b idx buf₂, rfl, ?_⟩
      intro i hi
      by_cases he : i = idx
      · subst he
        simp only [Bufs.received, bufs, Function.update_self]
        rw [take_write hbuf, take_write hbuf₂]
      · have hni : i ∉ q.bufs.posted := fun hm => hi ((List.mem_erase_of_ne he).2 hm)
        simpa [Bufs.received, bufs, Function.update_of_ne he] using hb i hni
    · rw [show (q.recvBuf idx).write 0 bytes = none from dif_neg hfit,
        show (b idx).write 0 bytes = none from dif_neg hfit]
      exact .none
  · exact .none

theorem Alike.step {a : Action} (h : Alike role n q q₂) (ha : a.Whole role) :
    Option.Rel (Alike role n) (Rdma.step role q a) (Rdma.step role q₂ a) := by
  by_cases harr : ∃ idx bytes, a = .arrive idx bytes
  · obtain ⟨idx, bytes, rfl⟩ := harr
    exact h.arrive ha
  · obtain ⟨hs, b, rfl, hb⟩ := h
    have harr : ∀ idx bytes, a ≠ .arrive idx bytes := fun idx bytes he => harr ⟨idx, bytes, he⟩
    rw [step_withBuf harr hs hb]
    cases hq : Rdma.step role q a with
    | none => exact .none
    | some q' =>
      have hsteps := step_spec hq
      exact .some ⟨hsteps.sound hs fun _ => ha, b, rfl, hb.later (hsteps.later harr)⟩

def shown (q : RdmaQueue) : List Handed × List RdmaResp := (q.handed, q.responses)

theorem Alike.run {as : List Action} (h : Alike role n q q₂) (has : ∀ a ∈ as, a.Whole role) :
    Option.Rel (Alike role n) (runFrom (Rdma.step role) q as) (runFrom (Rdma.step role) q₂ as) :=
  @runFrom_related _ _ (Rdma.step role) (Alike role n) (Action.Whole role) Alike.step as q q₂ h has

theorem Alike.shown_eq (h : Alike role n q q₂) : q₂.shown = q.shown := by
  obtain ⟨-, b, rfl, -⟩ := h
  rfl

theorem sound_run {cfg : QueueCfg} {connect : List UInt8} {as : List Action}
    (has : ∀ a ∈ as, a.Whole role)
    (h : runFrom (Rdma.step role) (bootstrapped cfg connect) as = some q) :
    q.bufs.Sound role True cfg.sqsize [] := by
  have hself : Alike role cfg.sqsize (bootstrapped cfg connect) (bootstrapped cfg connect) :=
    ⟨sound_bootstrapped role True cfg connect, _, rfl, fun _ _ => rfl⟩
  have hrun := hself.run has
  rw [h] at hrun
  cases hrun with
  | some hq => exact hq.1

/-! ## A short capsule -/

/-- What the slot task finds in a ready slot. -/
def slotView {cfg : QueueCfg} {connect : List UInt8} {as : List Action}
    (h : runFrom (Rdma.step role) (bootstrapped cfg connect) as = some q)
    (hs : (q.slots.slots tag).state = .ready) : SlotView where
  segs := segsOf (q.slots.slots tag).data
  dataLen := (q.slots.slots tag).dataLen
  covered := run_covered h tag (.inr hs)

def roomyPool : Pool where
  alloc := fun len => some [List.replicate len 0]
  fits := by
    intro len segs h
    obtain rfl := Option.some.inj h
    simp [SlotData.LeaseOk, SlotData.maxSegs]

def emptyPool : Pool where
  alloc := fun _ => none
  fits := by simp

def oneCapsule (bytes : List UInt8) : List Action :=
  [.arrive 0 bytes, .reap roomyPool, .take 0]

def connectSent : List Action := [.nicSend [], .reap roomyPool]

theorem oneCapsule_handed {io : IoState B} {cfg : QueueCfg} {connect : List UInt8} {span : Nat × Nat}
    (hlen : sqeLen ≤ bytes.length) (hfit : bytes.length ≤ capsuleLen)
    (hh : heldInline (.io io) (commandOf bytes) = true)
    (hspan : inlineSpan (commandOf bytes) = .ok span) (b : Nat → Buf capsuleLen) :
    (runFrom (Rdma.step (.io io)) ((bootstrapped cfg connect).withBuf b)
        (connectSent ++ oneCapsule bytes)).map (·.handed)
      = some [{ tag := 0, cmd := commandOf bytes
                data := slice (blit (b 0).bytes 0 bytes) (sqeLen + span.1) span.2 }] := by
  obtain ⟨n, hn⟩ : ∃ n, cfg.sqsize = n + 1 := ⟨cfg.sqsize - 1, by have := cfg.sqsize_pos; omega⟩
  obtain ⟨buf, hbuf⟩ : ∃ buf, (b 0).write 0 bytes = some buf :=
    ⟨_, dif_pos (by omega)⟩
  have hbytes : buf.bytes = blit (b 0).bytes 0 bytes := (Buf.write_eq_some.1 hbuf).2
  have hcmd : Sqe.readFromBytes (slice buf.bytes 0 sqeLen) = commandOf bytes := by
    rw [← commandOf, ← commandOf_take hlen, take_write hbuf]
  have hd : hostDataIn (.io io) (commandOf bytes).opcode = true := by
    simp only [heldInline, Bool.and_eq_true] at hh
    exact hh.1
  have hcopied : ((writeSegs [List.replicate span.2 0] 0
        (slice buf.bytes (sqeLen + span.1) span.2)).1.flatten).take span.2
      = slice (blit (b 0).bytes 0 bytes) (sqeLen + span.1) span.2 := by
    obtain ⟨-, -, hicd⟩ := inlineSpan_ok hspan
    have hsl : (slice buf.bytes (sqeLen + span.1) span.2).length = span.2 := by
      rw [slice_length, buf.size, capsuleLen]
      omega
    rw [(writeSegs_flatten _ 0 _ (by simp [hsl])).1, ← hbytes]
    have ht := @take_blit 0 _ [List.replicate span.2 (0 : UInt8)].flatten
      (slice buf.bytes (sqeLen + span.1) span.2) (Nat.zero_le _)
    rw [hsl, Nat.zero_add] at ht
    rw [ht, List.take_zero, List.nil_append]
  simp [runFrom, connectSent, oneCapsule, Rdma.step, nicSend, onResponseDone, SlotArray.releaseTag,
    RdmaQueue.arrive, bootstrapped, primed, withBuf, hn, hbuf, processCqe, handleRecv, recvSlice, hcmd,
    hh, claimOrPark, SlotArray.claimTag, SlotArray.new, List.range_succ_eq_map, SlotArray.slot,
    routeCmd, hd, hspan, tryStageInline, roomyPool, Slot.new,
    Checked.require, SlotArray.submit, SlotArray.put, RdmaQueue.awaitCommand, SlotArray.awaitCommand,
    payload, orWait, postRecv, Except.toOption, hcopied]

theorem getElem?_slice_blit {old : List UInt8} {off len k : Nat} (hk : bytes.length ≤ off + k)
    (hlen : k < len) : (slice (blit old 0 bytes) off len)[k]? = old[off + k]? := by
  simp only [slice, blit, List.take_zero, List.nil_append, Nat.zero_add, List.getElem?_take, if_pos hlen,
    List.getElem?_drop]
  rw [List.getElem?_append_right hk, List.getElem?_drop]
  congr 1
  omega

/-- Whatever is left in the buffer past a short capsule is handed over as the command's data. -/
theorem short_capsule_shows_leftover {io : IoState B} (cfg : QueueCfg) (connect : List UInt8)
    (hlen : sqeLen ≤ bytes.length) (hfit : bytes.length ≤ capsuleLen) (hw : ¬ Whole (.io io) bytes) :
    ∃ b, (runFrom (Rdma.step (.io io)) (bootstrapped cfg connect)
        (connectSent ++ oneCapsule bytes)).map (·.handed)
      ≠ (runFrom (Rdma.step (.io io)) ((bootstrapped cfg connect).withBuf b)
        (connectSent ++ oneCapsule bytes)).map (·.handed) := by
  obtain ⟨hh, span, hspan, hshort⟩ : heldInline (.io io) (commandOf bytes) = true ∧
      ∃ span, inlineSpan (commandOf bytes) = .ok span ∧ bytes.length < sqeLen + span.1 + span.2 := by
    simpa [Whole, PayloadWithin, hlen] using hw
  obtain ⟨-, hpos, hicd⟩ := inlineSpan_ok hspan
  have hcap : capsuleLen = sqeLen + icdLen := rfl
  -- the first payload byte that was not received
  let k := bytes.length - (sqeLen + span.1)
  have hk : bytes.length ≤ sqeLen + span.1 + k ∧ k < span.2 := by omega
  let q := bootstrapped cfg connect
  have hhanded := @oneCapsule_handed _ _ io cfg connect span hlen hfit hh hspan
  obtain ⟨x, hx⟩ : ∃ x, (q.recvBuf 0).bytes[sqeLen + span.1 + k]? = some x :=
    ⟨_, List.getElem?_eq_getElem (by rw [(q.recvBuf 0).size]; omega)⟩
  refine ⟨fun _ => ⟨List.replicate capsuleLen (x + 1), by simp⟩, ?_⟩
  rw [hhanded, show bootstrapped cfg connect = q.withBuf q.recvBuf from rfl, hhanded]
  intro heq
  have hbyte := congrArg (fun d => d[k]?)
    (congrArg Handed.data (List.cons.inj (Option.some.inj heq)).1)
  simp only [getElem?_slice_blit hk.1 hk.2, hx, List.getElem?_replicate,
    if_pos (show sqeLen + span.1 + k < capsuleLen by omega)] at hbyte
  exact absurd (Option.some.inj hbyte) (by simp)

end RdmaQueue

open RdmaQueue

/-- **Stale bytes reach no command as long as capsules come whole**: from any state of a run of whole
capsules, other contents of the buffers outside the received bytes give the same data to the slot
tasks and the same responses, in every continuation of whole capsules. A capsule that has its command
but not all of the payload it names does show what was left in its buffer. -/
theorem inline_data_from_received_bytes (io : IoState B) (cfg : QueueCfg) (connect : List UInt8) :
    (∀ (before after : List Action) (q : RdmaQueue) (b : Nat → Buf capsuleLen),
      runFrom (step (.io io)) (bootstrapped cfg connect) before = some q →
      (∀ a ∈ before ++ after, a.Whole (.io io)) → q.bufs.SameReceived b →
      (runFrom (step (.io io)) (q.withBuf b) after).map shown
        = (runFrom (step (.io io)) q after).map shown) ∧
    ∀ bytes, sqeLen ≤ bytes.length → bytes.length ≤ capsuleLen → ¬ Whole (.io io) bytes →
      ∃ b, (runFrom (step (.io io)) (bootstrapped cfg connect)
          (connectSent ++ oneCapsule bytes)).map (·.handed)
        ≠ (runFrom (step (.io io)) ((bootstrapped cfg connect).withBuf b)
          (connectSent ++ oneCapsule bytes)).map (·.handed) := by
  constructor
  · intro before after q b hrun hwhole hb
    have hs := sound_run (fun a ha => hwhole a (List.mem_append_left _ ha)) hrun
    have halike : Alike (.io io) cfg.sqsize q (q.withBuf b) := ⟨hs, b, rfl, hb⟩
    have hafter := halike.run fun a ha => hwhole a (List.mem_append_right _ ha)
    generalize runFrom (step (.io io)) q after = r at hafter ⊢
    generalize runFrom (step (.io io)) (q.withBuf b) after = r₂ at hafter ⊢
    cases hafter with
    | none => rfl
    | some h => exact congrArg some h.shown_eq
  · intro bytes hlen hfit hw
    exact short_capsule_shows_leftover cfg connect hlen hfit hw

def oneSlot : QueueCfg :=
  { qid := 1, sqsize := 1, sqhdDisabled := true, sqsize_pos := by decide, sqsize_lt := by decide }

def twoSlots : QueueCfg :=
  { qid := 1, sqsize := 2, sqhdDisabled := true, sqsize_pos := by decide, sqsize_lt := by decide }

def connectCapsule : List UInt8 := [0x7f, 0, 0, 0, 1] ++ List.replicate 1083 0

def writeByte : Sqe :=
  { Sqe.zeroed with
    opcode := IoOpcode.write
    dptr := { addr := 0, length := 1, rsvd := [0, 0, 0], sglType := inlineSglType } }

/-- A full write capsule stores its own byte over any leftovers. -/
theorem inline_data_from_received_bytes_byte :
    (∀ a ∈ connectSent ++ oneCapsule (writeByte.asBytes ++ [7]), a.Whole (.io (IoState.new Unit))) ∧
      (runFrom (step (.io (IoState.new Unit)))
          ((bootstrapped oneSlot connectCapsule).withBuf fun _ => ⟨List.replicate capsuleLen 1, by simp⟩)
          (connectSent ++ oneCapsule (writeByte.asBytes ++ [7]))).map shown
        = (runFrom (step (.io (IoState.new Unit))) (bootstrapped oneSlot connectCapsule)
          (connectSent ++ oneCapsule (writeByte.asBytes ++ [7]))).map shown := by
  have hwhole : ∀ a ∈ connectSent ++ oneCapsule (writeByte.asBytes ++ [7]),
      a.Whole (.io (IoState.new Unit)) := by
    simp only [connectSent, oneCapsule, List.mem_append, List.mem_cons, List.not_mem_nil, or_false]
    rintro a ((rfl | rfl) | rfl | rfl | rfl)
    case inr.inl =>
      exact (by decide +kernel : Whole (.io (IoState.new Unit)) (writeByte.asBytes ++ [7]))
    all_goals trivial
  refine ⟨hwhole, (inline_data_from_received_bytes (IoState.new Unit) oneSlot connectCapsule).1 []
    _ _ _ rfl hwhole fun idx hi => ?_⟩
  have hidx : idx ≠ 0 := by
    rintro rfl
    exact hi (by decide)
  have hlen : (bootstrapped oneSlot connectCapsule).bufs.byteLen idx = 0 := by
    simp [bootstrapped, bufs, hidx]
  rw [Bufs.received, hlen, List.take_zero, List.take_zero]

/-- A block of `x` is written, with the response sent; then the same Write comes without its payload. -/
def shortSecond (x : UInt8) : List Action :=
  connectSent ++ oneCapsule (writeOneBlock ++ List.replicate 512 x) ++
    [.finish 0 0 0 0 (.leased [List.replicate 512 x]), .postResponses, .nicSend [], .reap roomyPool,
      .arrive 0 writeOneBlock, .reap roomyPool]

/-- The second command, of which the NIC received the same 64 bytes for every `x`, stores `x`. -/
def StoresLeftover (x : UInt8) : Prop :=
  ∃ q, ∃ hrun : runFrom (step (.io boundIo)) (bootstrapped oneSlot connectCapsule) (shortSecond x) =
      some q,
    ∃ hs : (q.slots.slots 0).state = .ready,
      (Io.execute boundIo smallTables (slotView hrun hs) (q.slots.slots 0).cmd).1.Runs
        [.writeSegs smallMemory 0 [List.replicate 512 x] 512] none

theorem storesLeftover_of_slot {x : UInt8}
    (hslot : (runFrom (step (.io boundIo)) (bootstrapped oneSlot connectCapsule) (shortSecond x)).map
      (fun q => ((q.slots.slots 0).state, (q.slots.slots 0).cmd, (q.slots.slots 0).data,
        (q.slots.slots 0).dataLen))
      = some (.ready, Sqe.readFromBytes writeOneBlock, .leased [List.replicate 512 x], 512)) :
    StoresLeftover x := by
  obtain ⟨q, hrun, hq⟩ := Option.map_eq_some_iff.1 hslot
  simp only [Prod.mk.injEq] at hq
  obtain ⟨hs, hcmd, hdata, hlen⟩ := hq
  have hall : ∀ v : SlotView, v.segs = [List.replicate 512 x] → v.dataLen = 512 →
      (Io.execute boundIo smallTables v (Sqe.readFromBytes writeOneBlock)).1.Runs
        [.writeSegs smallMemory 0 [List.replicate 512 x] 512] none := by
    rintro ⟨segs, n, hn⟩ rfl rfl
    exact .call (r := .ok ()) (.cut _)
  exact ⟨q, hrun, hs, hcmd ▸ hall _ (congrArg segsOf hdata) hlen⟩

theorem short_capsule_stores_previous_payload : StoresLeftover 0xaa ∧ StoresLeftover 0xbb :=
  ⟨storesLeftover_of_slot (by decide +kernel), storesLeftover_of_slot (by decide +kernel)⟩

end Ioutgt.Rdma
