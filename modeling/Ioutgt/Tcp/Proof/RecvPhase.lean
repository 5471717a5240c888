import Ioutgt.Tcp.Proof.RecvInv

/-!
# What the phases do

One lemma for each function of the receive path that changes a slot, in terms of the slot it
changes (`Touched`) and of the invariants of the slot a payload streams into.

* `finishPayload_spec`, `DataPhase.advance_spec`, `DdgstPhase.advance_spec`.
* `validateH2c_spec`, `handleCapsuleCmd_spec`.
-/

namespace Ioutgt.Tcp

open Lib Ioutgt.Core Ioutgt.Nvme Ioutgt.Uring

variable {s : Slot Sqe} {l' l : Link} {x : List UInt8} {t : Nat} {ps : List Pdu}
  {kind : PayloadKind} {q : NvmeTcpQueue}

/-- `q'` is `q` with the slot of `t` changed to `s` and `ws` pushed. -/
structure Touched (q q' : NvmeTcpQueue) (t : Nat) (s : Slot Sqe) (ws : List SendWork) : Prop where
  cfg : q'.cfg = q.cfg
  sqhd : q'.sqhd < q'.cfg.sqsize
  slots : q'.slots.slots = Function.update q.slots.slots t s
  nslots : q'.slots.nslots = q.slots.nslots
  wf : q'.slots.Wf
  send : q'.send = q.send ++ ws

section
variable {l l' : Link} {p : Pos} {q q' q'' : NvmeTcpQueue} {t : Nat} {s s' : Slot Sqe}
  {ws ws' : List SendWork}

theorem Touched.self (h : Touched q q' t s ws) : q'.slots.slots t = s := by
  rw [h.slots, Function.update_self]

theorem Touched.other {u : Nat} (h : Touched q q' t s ws) (hu : u ≠ t) :
    q'.slots.slots u = q.slots.slots u := by
  rw [h.slots, Function.update_of_ne hu]

/-- The slots hold the same region of the ring, or neither holds one. -/
def SameRegion (s s' : Slot Sqe) : Prop :=
  ∀ b off len, s.data = .ring b off len ↔ s'.data = .ring b off len

theorem SameRegion.of_data (h : s.data = s'.data) : SameRegion s s' := fun _ _ _ => by rw [h]

theorem Touched.linkOk (h : Touched l.queue q t s ws) (hl : LinkOk l p)
    (hb : SameRegion s (l.queue.slots.slots t)) : LinkOk { l with queue := q } p := by
  refine hl.of_queue h.cfg h.sqhd h.wf h.nslots ?_
  intro u _ b
  rw [h.slots]
  by_cases hu : u = t
  · rw [hu, Function.update_self, Bool.eq_iff_iff, borrows_eq_true, borrows_eq_true]
    simp only [hb b]
  · rw [Function.update_of_ne hu]

theorem LinkOk.untouched (hl : LinkOk l p) (t : Nat) :
    Touched l.queue l.queue t (l.queue.slots.slots t) [] :=
  ⟨rfl, hl.sqhd, by simp, rfl, hl.slots, by simp⟩

theorem LinkOk.setData (hl : LinkOk l p) (ht : t < l.queue.slots.nslots) (d : SlotData) :
    Touched l.queue (l.queue.withSlot t { l.queue.slots.slots t with data := d }) t
      { l.queue.slots.slots t with data := d } [] :=
  ⟨rfl, hl.sqhd, rfl, rfl, hl.slots.put_same ht rfl, by simp⟩

theorem Touched.withSlot (hw : q.slots.Wf) (hsq : q.sqhd < q.cfg.sqsize) (ht : t < q.slots.nslots)
    (hold : (q.slots.slots t).state = .receiving) (hnew : s.state ≠ .free)
    (hexec : s.state ≠ .executing) : Touched q (q.withSlot t s) t s [] where
  cfg := rfl
  sqhd := hsq
  slots := rfl
  nslots := rfl
  wf := by
    have := hw.put ht (s := s) (n := q.slots.executing) (by rw [hold]; decide) hnew
      (by simp [Slot.isExecuting, hold, hexec])
    exact this
  send := by simp

theorem Touched.traffic (h : Touched q q' t s ws) (traffic : Bool) :
    Touched q { q' with traffic } t s ws :=
  ⟨h.cfg, h.sqhd, h.slots, h.nslots, h.wf, h.send⟩

theorem Touched.trans (h : Touched q q' t s ws) (h' : Touched q' q'' t s' ws') :
    Touched q q'' t s' (ws ++ ws') where
  cfg := h'.cfg.trans h.cfg
  sqhd := h'.sqhd
  slots := by rw [h'.slots, h.slots, Function.update_idem]
  nslots := h'.nslots.trans h.nslots
  wf := h'.wf
  send := by rw [h'.send, h.send, List.append_assoc]

/-- From `l` to `l'` the slot of `t` became `s` and `ws` were pushed; what the reader sees and what
the other slots hold is kept. -/
structure LinkStep (l l' : Link) (p : Pos) (t : Nat) (s : Slot Sqe) (ws : List SendWork) :
    Prop where
  ok : LinkOk l' p
  touched : Touched l.queue l'.queue t s ws
  steady : l.Steady l'

theorem Touched.linkStep (h : Touched l.queue q t s ws) (hl : LinkOk l p)
    (hb : SameRegion s (l.queue.slots.slots t)) :
    LinkStep l { l with queue := q } p t s ws :=
  ⟨h.linkOk hl hb, h, .of_reader rfl⟩

theorem LinkStep.slot (h : LinkStep l l' p t s ws) : l'.queue.slots.slots t = s :=
  h.touched.self

theorem LinkStep.lt (h : LinkStep l l' p t s ws) (ht : t < l.queue.slots.nslots) :
    t < l'.queue.slots.nslots := by
  rw [h.touched.nslots]
  exact ht

theorem LinkStep.keeps (h : LinkStep l l' p t s ws) {u b : Nat} (hu : u < l.queue.slots.nslots)
    (hne : u ≠ t) (hb : borrows b (l.queue.slots.slots u) = true) : l.Keeps l' b := by
  refine h.ok.keeps h.steady (t := u) ?_ ?_
  · rw [h.touched.nslots]
    exact hu
  · rw [h.touched.other hne]
    exact hb

theorem LinkOk.leases (hl : LinkOk l p) (ht : t < l.queue.slots.nslots) (segs : List (List UInt8)) :
    ∃ l', (l.setData t (.leased segs) : Checked RecvEnd _) = .ok l' ∧
      LinkStep l l' p t { l.queue.slots.slots t with data := .leased segs } [] := by
  obtain ⟨l', hset, hok, hq, hst⟩ := hl.setLease RecvEnd ht segs
  refine ⟨l', hset, hok, ?_, hst⟩
  rw [hq]
  exact hl.setData ht _

theorem LinkStep.then (h : LinkStep l l' p t s ws) (ht : Touched l'.queue q t s' ws')
    (hb : SameRegion s' s) :
    LinkStep l { l' with queue := q } p t s' (ws ++ ws') where
  ok := ht.linkOk h.ok (by rw [h.slot]; exact hb)
  touched := h.touched.trans ht
  steady := h.steady

end

/-! ## Payload -/

section
variable {l : Link} {p : Pos} {t base : Nat} {ps : List Pdu} {cur : Pdu} {kind : PayloadKind}
  {pdu : DecodedPdu}

theorem SlotOk.of_ready (hst : s.state = .ready) (h : Delivered l t ps s) : SlotOk l t ps s :=
  ⟨fun hs => (by cases hst.symm.trans hs), fun hs => (by cases hst.symm.trans hs), fun _ => h⟩

theorem SlotOk.of_waiting (hst : s.state = .receiving) (h : Waiting l t ps s) :
    SlotOk l t ps s :=
  ⟨fun hs => (by cases hst.symm.trans hs), fun _ => .inr h, fun hs => (by cases hst.symm.trans hs)⟩

/-- The PDU is flagged as its transfer's last, but bytes are missing. -/
def Short (s : Slot Sqe) (kind : PayloadKind) : Prop :=
  ∃ len, kind = .h2c true len ∧ s.recvOffset + len ≠ s.dataLen

theorem finishPayload_spec (hl : LinkOk l p) (ht : t < l.queue.slots.nslots)
    (hf : Filling l t ps (l.queue.slots.slots t) cur base kind pdu)
    (hfull : cur.payload.length = pdu.dataLen) :
    (∃ e, finishPayload l.queue t kind = .error (.err e) ∧ Short (l.queue.slots.slots t) kind) ∨
      ∃ q s, finishPayload l.queue t kind = .ok q ∧ Touched l.queue q t s [] ∧
        s.data = (l.queue.slots.slots t).data ∧ s.cmd = (l.queue.slots.slots t).cmd ∧
        s.dataLen = (l.queue.slots.slots t).dataLen ∧ (s.state = .receiving ∨ s.state = .ready) ∧
        SlotOk l t (ps ++ [cur]) s := by
  have hpay : payloads (ps ++ [cur]) = payloads ps ++ cur.payload := payloads_append ps cur
  have hst := hf.state
  have hfits := hf.fits
  have hmdts := hf.mdts
  have hoff := hf.offset
  have hstart := hf.start
  have hlen : (payloads (ps ++ [cur])).length = base + pdu.dataLen := by
    rw [hpay, List.length_append, ← hstart, hfull]
  have harr : Arrived l (l.queue.slots.slots t).data (payloads (ps ++ [cur])) := by
    rw [hpay]
    exact hf.arrived
  unfold finishPayload
  rw [SlotArray.slot_ok ht, Checked.bind_ok]
  cases hf.source with
  | inCapsule hk hpdu hgot hdl =>
    obtain ⟨hty, hcmd, -⟩ := hf.hdr.capsuleCmd hpdu
    subst hk
    dsimp only
    rw [NvmeTcpQueue.submit_ok ht hst]
    refine .inr ⟨_, { l.queue.slots.slots t with state := .ready }, rfl,
      (Touched.withSlot hl.slots hl.sqhd ht hst (by simp) (by simp)).traffic true, rfl, rfl, rfl,
      .inr rfl,
      .of_ready rfl ⟨?_, ?_, harr⟩⟩
    · exact .capsule cur (by rw [hgot]; rfl) hty hcmd
    · rw [hlen, hdl, hstart, hgot]
      simp [payloads]
  | h2c last cid hk hpdu hsol =>
    obtain ⟨hty, htag, hofs, -⟩ := hf.hdr.h2cData hpdu
    subst hk
    have hsol' : ∀ s : Slot Sqe, s.cmd = (l.queue.slots.slots t).cmd →
        s.dataLen = (l.queue.slots.slots t).dataLen → Solicited t s (ps ++ [cur]) := by
      intro s hc hd
      refine ⟨by rw [hc]; exact hsol.r2t, by rw [hc, hd]; exact hsol.len, ?_⟩
      refine hsol.ranges.snoc hty htag.symm ?_
      rw [← hstart, Nat.zero_add]
      exact hofs.symm
    have hadd : (Checked.add 32 (l.queue.slots.slots t).recvOffset pdu.dataLen : Checked RecvEnd Nat)
        = .ok (base + pdu.dataLen) := by
      rw [hoff]
      refine Checked.add_ok ?_
      have : mdtsBytes < 2 ^ 32 := by decide
      omega
    dsimp only
    rw [hadd, Checked.bind_ok, NvmeTcpQueue.modifySlot_ok ht, Checked.bind_ok]
    split
    · rename_i hdone
      rw [NvmeTcpQueue.submit_ok (by exact ht) (by simpa using hst)]
      simp only [NvmeTcpQueue.withSlot_self, NvmeTcpQueue.withSlot_withSlot]
      refine .inr ⟨_, { l.queue.slots.slots t with
        recvOffset := base + pdu.dataLen, state := .ready }, rfl,
        (Touched.withSlot hl.slots hl.sqhd ht hst (by simp) (by simp)).traffic true, rfl, rfl, rfl,
        .inr rfl,
        .of_ready rfl ⟨.solicited (hsol' _ rfl rfl), ?_, harr⟩⟩
      rw [hlen, hdone]
    · rename_i hdone
      split
      · rename_i hlast
        exact .inl ⟨_, rfl, pdu.dataLen, by rw [hlast], by rw [hoff]; exact hdone⟩
      · refine .inr ⟨_, { l.queue.slots.slots t with recvOffset := base + pdu.dataLen }, rfl,
          .withSlot hl.slots hl.sqhd ht hst (by simp [hst]) (by simp [hst]), rfl, rfl, rfl, .inl hst,
          .of_waiting hst ⟨hsol' _ rfl rfl, by rw [hlen], by omega, hmdts, ?_, harr⟩⟩
        rcases hf.buffer with hlease | ⟨b, off, -, hdl, hb⟩
        · exact hlease
        · -- a retained payload is the whole transfer
          omega

theorem Filling.hasDdgst (hf : Filling l t ps s cur base kind pdu) : cur.hasDdgst = pdu.ddgst := by
  cases hf.source with
  | inCapsule _ hpdu _ _ => exact (hf.hdr.capsuleCmd hpdu).2.2.symm
  | h2c _ _ _ hpdu _ => exact (hf.hdr.h2cData hpdu).2.2.2.symm

theorem Filling.extend {d : SlotData} (hf : Filling l t ps s cur base kind pdu)
    (hbuf : (∃ segs, d = .leased segs ∧ SlotData.LeaseOk s.dataLen segs) ∨
      ∃ b off, d = .ring b off pdu.dataLen ∧ s.dataLen = pdu.dataLen ∧ base = 0)
    (harr : Arrived l' d (payloads ps ++ (cur.payload ++ x))) :
    Filling l' t ps { s with data := d } { cur with payload := cur.payload ++ x } base kind pdu where
  hdr := hf.hdr
  state := hf.state
  source := by
    cases hf.source with
    | inCapsule hk hpdu hgot hdl => exact .inCapsule hk hpdu hgot hdl
    | h2c last cid hk hpdu hsol => exact .h2c last cid hk hpdu ⟨hsol.r2t, hsol.len, hsol.ranges⟩
  start := hf.start
  offset := hf.offset
  fits := hf.fits
  buffer := hbuf
  mdts := hf.mdts
  arrived := harr

theorem Arrived.of_reader {d : SlotData} {bs : List UInt8} (h : Arrived l d bs)
    (hr : l'.reader = l.reader) : Arrived l' d bs :=
  h.keep fun b _ _ _ => .of_reader hr b

theorem SlotOk.of_reader (h : SlotOk l t ps s) (hr : l'.reader = l.reader) : SlotOk l' t ps s :=
  h.keep fun b _ => .of_reader hr b

theorem Filling.of_reader (hf : Filling l t ps s cur base kind pdu) (hr : l'.reader = l.reader) :
    Filling l' t ps s cur base kind pdu :=
  ⟨hf.hdr, hf.state, hf.source, hf.start, hf.offset, hf.fits, hf.buffer, hf.mdts,
    hf.arrived.of_reader hr⟩

/-- Without a digest to come, a whole payload completes its PDU. -/
theorem Filling.framed {dd : Bool} (hf : Filling l t ps s cur base kind pdu)
    (hfull : cur.payload.length = pdu.dataLen) (hdig : cur.digest = [])
    (hoff : (pdu.ddgst && dd) = false) : Framed dd cur ∧ (dd = true → ¬cur.Mismatch) := by
  have hplen := hf.hdr.plen
  have hflag := hf.hasDdgst
  unfold Framed Pdu.plen Pdu.Mismatch
  rw [hdig, hfull, ← hplen, hflag]
  cases hd : pdu.ddgst <;> cases dd <;> simp_all

end

/-- What a phase left behind for the command of tag `t`, whose slot was `s₀` and is `s`: payload or
digest still to come, or the PDU `cur` accepted. -/
inductive Moved (dd : Bool) (l : Link) (t : Nat) (kind : PayloadKind) (ps : List Pdu)
    (s₀ s : Slot Sqe) (cur : Pdu) : RecvPhase → Prop
  | data {d : DataPhase} {pdu : DecodedPdu} (tag : d.tag = t) (same : d.kind = kind)
      (ok : DataOk dd l ps s cur d cur.payload.length pdu) (offset : s.recvOffset = s₀.recvOffset)
      (held : d.retained = true → s.data = s₀.data) : Moved dd l t kind ps s₀ s cur (.data d)
  | ddgst {g : DdgstPhase} {base : Nat} {pdu : DecodedPdu} (tag : g.tag = t) (same : g.kind = kind)
      (ok : DdgstOk dd l ps s cur g base pdu) (offset : s.recvOffset = s₀.recvOffset) :
      Moved dd l t kind ps s₀ s cur (.ddgst g)
  | done (state : s.state = .receiving ∨ s.state = .ready) (ok : SlotOk l t (ps ++ [cur]) s)
      (framed : Framed dd cur) (verified : dd = true → ¬cur.Mismatch)
      (whole : ∀ last len, kind = .h2c last len →
        (payloads (ps ++ [cur])).length = s₀.recvOffset + len) :
      Moved dd l t kind ps s₀ s cur .header

structure PhaseStep (dd : Bool) (l : Link) (t : Nat) (kind : PayloadKind) (ps : List Pdu)
    (cur : Pdu) (q : NvmeTcpQueue) (phase : RecvPhase) (s : Slot Sqe) : Prop where
  touched : Touched l.queue q t s []
  region : SameRegion s (l.queue.slots.slots t)
  cmd : s.cmd = (l.queue.slots.slots t).cmd
  len : s.dataLen = (l.queue.slots.slots t).dataLen
  moved : Moved dd { l with queue := q } t kind ps (l.queue.slots.slots t) s cur phase

/-- The PDU that completes the payload under way completes what came for the command. -/
theorem Filling.whole {base : Nat} {cur : Pdu} {pdu : DecodedPdu}
    (h : Filling l t ps s cur base kind pdu) (hfull : cur.payload.length = pdu.dataLen)
    (last : Bool) (len : Nat) (hk : kind = .h2c last len) :
    (payloads (ps ++ [cur])).length = s.recvOffset + len := by
  rw [payloads_append, List.length_append, ← h.start, h.offset, hfull]
  cases h.source with
  | inCapsule hk' => rw [hk] at hk'; cases hk'
  | h2c last' cid hk' => rw [hk] at hk'; cases hk'; rfl

theorem PhaseStep.after {dd : Bool} {cur : Pdu} {q₁ : NvmeTcpQueue} {phase : RecvPhase}
    {s₁ : Slot Sqe} (h : PhaseStep dd { l with queue := q₁ } t kind ps cur q phase s)
    (htouch : Touched l.queue q₁ t s₁ [])
    (hb : SameRegion s₁ (l.queue.slots.slots t))
    (hcmd : s₁.cmd = (l.queue.slots.slots t).cmd)
    (hlen : s₁.dataLen = (l.queue.slots.slots t).dataLen)
    (hoff : s₁.recvOffset = (l.queue.slots.slots t).recvOffset) (hnd : ∀ d, phase ≠ .data d) :
    PhaseStep dd l t kind ps cur q phase s := by
  have hs₁ : q₁.slots.slots t = s₁ := htouch.self
  have hb' := h.region
  have hcmd' := h.cmd
  have hlen' := h.len
  dsimp only at hb' hcmd' hlen'
  rw [hs₁] at hb' hcmd' hlen'
  refine ⟨htouch.trans h.touched, fun b off len => (hb' b off len).trans (hb b off len), hcmd'.trans hcmd,
    hlen'.trans hlen, ?_⟩
  have hmoved := h.moved
  dsimp only at hmoved
  rw [hs₁] at hmoved
  cases hmoved with
  | data tag same ok offset held => exact absurd rfl (hnd _)
  | ddgst tag same ok offset => exact .ddgst tag same ok (offset.trans hoff)
  | done st ok fr ve wh => exact .done st ok fr ve fun last len hk => by rw [wh last len hk, hoff]

namespace DataPhase

section
variable {dd : Bool} {l : Link} {p : Pos} {ps : List Pdu} {cur : Pdu} {d : DataPhase}
  {pdu : DecodedPdu}

theorem finish_spec (hl : LinkOk l p) (ht : d.tag < l.queue.slots.nslots)
    (hf : Filling l d.tag ps (l.queue.slots.slots d.tag) cur d.base d.kind pdu)
    (hfull : cur.payload.length = pdu.dataLen) (hdig : cur.digest = [])
    (hdd : d.ddgst = (pdu.ddgst && dd)) (hcrc : d.ddgst = true → d.crc = crc32c cur.payload) :
    (∃ e, d.finish l.queue = .error (.err e) ∧ Short (l.queue.slots.slots d.tag) d.kind) ∨
      ∃ q phase s, d.finish l.queue = .ok (q, phase) ∧ PhaseStep dd l d.tag d.kind ps cur q phase s ∧
        s.data = (l.queue.slots.slots d.tag).data ∧ ∀ d', phase ≠ .data d' := by
  unfold DataPhase.finish
  cases hon : d.ddgst with
  | true =>
    refine .inr ⟨l.queue, _, l.queue.slots.slots d.tag, rfl,
      ⟨hl.untouched _, .of_data rfl, rfl, rfl, ?_⟩, rfl, fun _ h => by cases h⟩
    refine .ddgst rfl rfl ⟨hf, hfull, hdig.symm, ?_, hcrc hon, ?_⟩ rfl
    · rw [hdig]
      decide
    · rw [← hdd, hon]
  | false =>
    obtain ⟨hfr, hmis⟩ := hf.framed hfull hdig (by rw [← hdd, hon])
    simp only [Bool.false_eq_true, ↓reduceIte]
    rcases finishPayload_spec hl ht hf hfull with
      ⟨e, he, hshort⟩ | ⟨q, s, hq, htch, hdata, hcmd, hlen, hst, hok⟩
    · exact .inl ⟨e, by rw [he]; rfl, hshort⟩
    · refine .inr ⟨q, .header, s, by rw [hq]; rfl, ⟨htch, .of_data hdata, hcmd, hlen, ?_⟩, hdata,
        fun _ h => by cases h⟩
      exact .done hst (hok.of_reader rfl) hfr hmis (hf.whole hfull)

theorem dest_ok (h : DataOk dd l ps (l.queue.slots.slots d.tag) cur d cur.payload.length pdu)
    (ht : d.tag < l.queue.slots.nslots) :
    d.dest l.queue = .ok (d.base + cur.payload.length) := by
  have hcount := h.count
  have htotal : d.total l.queue = .ok pdu.dataLen := by
    unfold DataPhase.total
    cases h.fill.source with
    | inCapsule hk hpdu hgot hdl =>
      rw [hk]
      dsimp only
      rw [SlotArray.slot_ok ht, Checked.bind_ok, hdl]
      rfl
    | h2c last cid hk hpdu hsol =>
      rw [hk]
      rfl
  have hfits := h.fill.fits
  have hmdts := h.fill.mdts
  have hsmall : mdtsBytes < 2 ^ 32 := by decide
  unfold DataPhase.dest
  rw [htotal, Checked.bind_ok, Checked.sub_ok (by omega), Checked.bind_ok,
    Checked.add_ok (by omega)]
  congr 2
  omega

theorem leaseOk_of_lengths {n : Nat} {segs segs' : List (List UInt8)}
    (hm : segs'.map List.length = segs.map List.length) (h : SlotData.LeaseOk n segs) :
    SlotData.LeaseOk n segs' := by
  have hlen : segs'.length = segs.length := by simpa using congrArg List.length hm
  have hsum : segs'.flatten.length = segs.flatten.length := by
    rw [List.length_flatten, List.length_flatten, hm]
  exact ⟨by rw [hlen]; exact h.1, by rw [hsum]; exact h.2⟩

theorem copy_spec (h : DataOk dd l ps (l.queue.slots.slots d.tag) cur d cur.payload.length pdu)
    (ht : d.tag < l.queue.slots.nslots) (hr : d.retained = false) (hx : x.length ≤ d.remaining) :
    ∃ segs, d.copy l.queue x
        = .ok (l.queue.withSlot d.tag { l.queue.slots.slots d.tag with data := .leased segs }) ∧
      SlotData.LeaseOk (l.queue.slots.slots d.tag).dataLen segs ∧
      Arrived l (.leased segs) (payloads ps ++ (cur.payload ++ x)) := by
  obtain ⟨segs, hsegs⟩ := h.copied hr
  have hlease : SlotData.LeaseOk (l.queue.slots.slots d.tag).dataLen segs := by
    rcases h.fill.buffer with ⟨segs', hd, hok⟩ | ⟨b, off, hd, -⟩
    · rw [hsegs] at hd
      cases hd
      exact hok
    · rw [hsegs] at hd
      cases hd
  have hcount := h.count
  have hfits := h.fill.fits
  have hcap := hlease.2
  obtain ⟨hflat, hrest, hlens⟩ := writeSegs_flatten segs (d.base + cur.payload.length) x (by omega)
  refine ⟨(writeSegs segs (d.base + cur.payload.length) x).1, ?_, leaseOk_of_lengths hlens hlease,
    ?_, fun _ _ _ _ _ hd => by cases hd⟩
  · unfold DataPhase.copy
    rw [dest_ok h ht, Checked.bind_ok, SlotArray.slot_ok ht, Checked.bind_ok, hsegs]
    unfold SlotData.writeAt
    dsimp only
    rw [Checked.require_ok _ hrest]
    simp only [Checked.bind_ok]
    exact NvmeTcpQueue.modifySlot_ok ht _
  · -- the bytes before the copy are those that had arrived
    have hold := h.fill.arrived.bytes
    rw [hsegs] at hold
    have hat : (payloads ps ++ cur.payload).length = d.base + cur.payload.length := by
      rw [List.length_append, ← h.fill.start]
    have hlen : (payloads ps ++ (cur.payload ++ x)).length
        = d.base + cur.payload.length + x.length := by
      rw [← List.append_assoc, List.length_append, hat]
    show ((writeSegs segs (d.base + cur.payload.length) x).1.flatten).take _ = _
    rw [hflat, hlen, take_blit (by omega), ← List.append_assoc, ← hat]
    congr 1

theorem store_spec (h : DataOk dd l ps (l.queue.slots.slots d.tag) cur d cur.payload.length pdu)
    (ht : d.tag < l.queue.slots.nslots) (hx : x.length ≤ d.remaining)
    (hret : d.retained = true →
      Arrived l (l.queue.slots.slots d.tag).data (payloads ps ++ (cur.payload ++ x))) :
    ∃ data, d.store l.queue x
        = .ok (l.queue.withSlot d.tag { l.queue.slots.slots d.tag with data }) ∧
      SameRegion { l.queue.slots.slots d.tag with data } (l.queue.slots.slots d.tag) ∧
      (d.retained = true → data = (l.queue.slots.slots d.tag).data) ∧
      (d.retained = false → ∃ segs, data = .leased segs) ∧
      Filling l d.tag ps { l.queue.slots.slots d.tag with data }
        { cur with payload := cur.payload ++ x } d.base d.kind pdu := by
  unfold DataPhase.store
  cases hr : d.retained with
  | true =>
    refine ⟨(l.queue.slots.slots d.tag).data, ?_, .of_data rfl, fun _ => rfl,
      fun h => (by cases h), h.fill.extend ?_ (hret hr)⟩
    · exact congrArg Except.ok (l.queue.withSlot_eq_self d.tag).symm
    · exact h.fill.buffer
  | false =>
    obtain ⟨segs, hcopy, hlease, harr⟩ := copy_spec h ht hr hx
    obtain ⟨segs', hsegs'⟩ := h.copied hr
    exact ⟨.leased segs, hcopy, fun _ _ _ => by simp [hsegs'], fun h => (by cases h),
      fun _ => ⟨segs, rfl⟩, h.fill.extend (.inl ⟨segs, rfl, hlease⟩) harr⟩

theorem advance_spec (hl : LinkOk l p) (ht : d.tag < l.queue.slots.nslots)
    (h : DataOk dd l ps (l.queue.slots.slots d.tag) cur d cur.payload.length pdu)
    {bs : List UInt8} (hret : d.retained = true → Arrived l (l.queue.slots.slots d.tag).data
      (payloads ps ++ (cur.payload ++ bs.take (min d.remaining bs.length)))) :
    (∃ e, d.advance l.queue bs = .error (.err e) ∧ Short (l.queue.slots.slots d.tag) d.kind) ∨
      ∃ q phase s, d.advance l.queue bs = .ok (q, min d.remaining bs.length, phase) ∧
        PhaseStep dd l d.tag d.kind ps
          { cur with payload := cur.payload ++ bs.take (min d.remaining bs.length) } q phase s := by
  have hn : min d.remaining bs.length ≤ d.remaining := Nat.min_le_left _ _
  have hxlen : (bs.take (min d.remaining bs.length)).length = min d.remaining bs.length := by
    rw [List.length_take]
    omega
  generalize hndef : min d.remaining bs.length = n at *
  generalize hxdef : bs.take n = x at *
  obtain ⟨data, hstore, hregion, hheld, hcopied, hfill⟩ := store_spec h ht (by omega) hret
  let s₁ := { l.queue.slots.slots d.tag with data }
  let l₁ : Link := { l with queue := l.queue.withSlot d.tag s₁ }
  have hs₁ : l₁.queue.slots.slots d.tag = s₁ := NvmeTcpQueue.withSlot_self _ _ _
  have ht₁ : d.tag < l₁.queue.slots.nslots := ht
  have htouch : Touched l.queue l₁.queue d.tag s₁ [] := hl.setData ht data
  have hl₁ : LinkOk l₁ p := htouch.linkOk hl hregion
  let d₁ : DataPhase := { d with
    crc := if d.ddgst then crc32cAppend d.crc x else d.crc, remaining := d.remaining - n }
  let cur₁ : Pdu := { cur with payload := cur.payload ++ x }
  have hcrc₁ : d₁.ddgst = true → d₁.crc = crc32c cur₁.payload := by
    intro hon
    have hcrc : crc32cAppend d.crc x = crc32c (cur.payload ++ x) := by
      rw [h.crc hon, List.take_length, crc32c_append]
    exact (if_pos hon).trans hcrc
  have hcount := h.count
  unfold DataPhase.advance
  dsimp only
  rw [hndef, hxdef, hstore, Checked.bind_ok]
  split
  · rename_i hmore
    have hok : DataOk dd l₁ ps s₁ cur₁ d₁ cur₁.payload.length pdu := by
      refine ⟨hfill.of_reader rfl, ?_, hmore, h.noDigest, h.ddgst, ?_, ?_, hcopied⟩
      · simp only [cur₁, d₁, List.length_append, hxlen]
        omega
      · intro hon
        rw [List.take_length]
        exact hcrc₁ hon
      · intro hr
        obtain ⟨b, off, k, hd, hb⟩ := h.retained hr
        exact ⟨b, off, k, by rw [← hd]; exact hheld hr, hb⟩
    exact .inr ⟨_, _, s₁, rfl, htouch, hregion, rfl, rfl, .data rfl rfl hok rfl hheld⟩
  · rename_i hmore
    have hfull : (cur.payload ++ x).length = pdu.dataLen := by
      rw [List.length_append, hxlen]
      omega
    have hfill₁ : Filling l₁ d₁.tag ps (l₁.queue.slots.slots d₁.tag) cur₁ d₁.base d₁.kind pdu := by
      rw [hs₁]
      exact hfill.of_reader rfl
    rcases finish_spec (d := d₁) hl₁ ht₁ hfill₁ hfull h.noDigest h.ddgst hcrc₁ with
      ⟨e, he, hshort⟩ | ⟨q, phase, s, hq, hstep, hdata, hnd⟩
    · refine .inl ⟨e, by rw [he]; rfl, ?_⟩
      rw [hs₁] at hshort
      exact hshort
    · exact .inr ⟨q, phase, s, by rw [hq]; rfl, hstep.after htouch hregion rfl rfl rfl hnd⟩

end

end DataPhase

/-! ## Digest -/

/-- A digest mismatch failed the command of tag `t`: the PDU `cur` is accepted, the command is
answered and its slot waits for the answer to be sent. -/
structure Failed (dd : Bool) (l : Link) (t : Nat) (cur : Pdu) (q : NvmeTcpQueue) : Prop where
  touched : ∃ c, Touched l.queue q t { l.queue.slots.slots t with state := .responding }
    [.response c] ∧ c.tag = t ∧ c.dataLen = 0 ∧ c.cqe.cid = (l.queue.slots.slots t).cmd.cid ∧
      c.cqe.status = dataXferStatus
  framed : Framed dd cur

section
variable {dd : Bool} {l : Link} {p : Pos} {ps : List Pdu} {cur : Pdu} {g : DdgstPhase} {base : Nat}
  {pdu : DecodedPdu}

theorem DdgstOk.framed (h : DdgstOk dd l ps s cur g base pdu) (hx : (cur.digest ++ x).length = 4) :
    Framed dd { cur with digest := cur.digest ++ x } := by
  have hplen := h.fill.hdr.plen
  have hflag := h.fill.hasDdgst
  obtain ⟨hd, hdd⟩ := Bool.and_eq_true_iff.1 h.on
  rw [hd] at hplen hflag
  unfold Framed
  show cur.hdr.length + cur.payload.length + (cur.digest ++ x).length +
    (if cur.hasDdgst && !dd then 4 else 0) = cur.plen
  rw [hflag, hdd, hx, h.full]
  exact hplen

theorem DdgstOk.verified (h : DdgstOk dd l ps s cur g base pdu) (hx : (cur.digest ++ x).length = 4) :
    Pdu.Verified { cur with digest := cur.digest ++ x }
      ↔ le (g.have_ ++ x) = g.expected.toNat := by
  have hflag : cur.hasDdgst = true := by
    rw [h.fill.hasDdgst]
    exact (Bool.and_eq_true_iff.1 h.on).1
  rw [h.have_, h.expected]
  constructor
  · exact fun hv => hv.2.2
  · exact fun he => ⟨hflag, hx, he⟩

theorem Filling.withDigest (dig : List UInt8) (hf : Filling l t ps s cur base kind pdu) :
    Filling l t ps s { cur with digest := dig } base kind pdu :=
  ⟨hf.hdr, hf.state, hf.source, hf.start, hf.offset, hf.fits, hf.buffer, hf.mdts, hf.arrived⟩

theorem DdgstPhase.advance_spec (hl : LinkOk l p) (ht : g.tag < l.queue.slots.nslots)
    (h : DdgstOk dd l ps (l.queue.slots.slots g.tag) cur g base pdu) (bs : List UInt8) :
    ∃ n, n ≤ bs.length ∧
      ((∃ e, g.advance l.queue bs = .error (.err e) ∧ Short (l.queue.slots.slots g.tag) g.kind) ∨
        (∃ q phase s, g.advance l.queue bs = .ok (q, n, phase) ∧
          PhaseStep dd l g.tag g.kind ps { cur with digest := cur.digest ++ bs.take n } q phase s ∧
          ∀ d, phase ≠ .data d) ∨
        ∃ q, g.advance l.queue bs = .ok (q, n, .header) ∧
          Failed dd l g.tag { cur with digest := cur.digest ++ bs.take n } q ∧
          g.wrong bs = true) := by
  have hshort := h.short
  have hst := h.fill.state
  have hhave : g.have_.length = cur.digest.length := by rw [h.have_]
  refine ⟨min (4 - g.have_.length) bs.length, Nat.min_le_right _ _, ?_⟩
  generalize hn : min (4 - g.have_.length) bs.length = n
  have hxlen : (bs.take n).length = n := by
    rw [List.length_take]
    omega
  have hlen : (cur.digest ++ bs.take n).length = cur.digest.length + n := by
    rw [List.length_append, hxlen]
  unfold DdgstPhase.advance
  rw [Checked.sub_ok (by omega), Checked.bind_ok]
  dsimp only
  rw [hn]
  split
  · -- more digest bytes to come
    rename_i hless
    rw [h.have_, hlen] at hless
    have hok : DdgstOk dd l ps (l.queue.slots.slots g.tag)
        { cur with digest := cur.digest ++ bs.take n }
        { g with have_ := g.have_ ++ bs.take n } base pdu :=
      ⟨h.fill.withDigest _, h.full, by rw [h.have_], by rw [hlen]; exact hless, h.expected, h.on⟩
    exact .inr (.inl ⟨l.queue, _, l.queue.slots.slots g.tag, rfl,
      ⟨hl.untouched _, .of_data rfl, rfl, rfl, .ddgst rfl rfl hok rfl⟩, fun _ hx => (by cases hx)⟩)
  · rename_i hless
    rw [h.have_, hlen] at hless
    have hfour : (cur.digest ++ bs.take n).length = 4 := by omega
    have hfr := h.framed hfour
    split
    · -- wrong digest: answer the command and go on
      rename_i hne
      refine .inr (.inr ?_)
      rw [SlotArray.slot_ok ht, Checked.bind_ok]
      obtain ⟨k, hsq, hk⟩ := l.queue.advanceSqhd_ok hl.sqhd
      rw [hsq, Checked.bind_ok]
      dsimp only
      rw [NvmeTcpQueue.completeReceiving_ok (q := { l.queue with sqhd := k }) ht hst]
      refine ⟨_, rfl, ⟨?_, hfr⟩, ?_⟩
      · have := Touched.withSlot (s := { l.queue.slots.slots g.tag with state := .responding })
          hl.slots hl.sqhd ht hst (by simp) (by simp)
        exact ⟨_, ⟨rfl, hk, this.slots, this.nslots, this.wf, rfl⟩, rfl, rfl, rfl, rfl⟩
      · have htake : bs.take (4 - g.have_.length) = bs.take n := by
          rw [← hn, List.take_eq_take_iff]
          omega
        unfold DdgstPhase.wrong
        dsimp only
        rw [htake, Bool.and_eq_true, beq_iff_eq, bne_iff_ne]
        exact ⟨by rw [h.have_]; exact hfour, hne⟩
    · rename_i hne
      have hver := (h.verified hfour).2 (by simpa using hne)
      rcases finishPayload_spec hl ht (h.fill.withDigest (cur.digest ++ bs.take n)) h.full with
        ⟨e, he, hshort⟩ | ⟨q, s, hq, htch, hdata, hcmd, hslen, hs, hok⟩
      · exact .inl ⟨e, by rw [he]; rfl, hshort⟩
      · refine .inr (.inl ⟨q, .header, s, by rw [hq]; rfl, ⟨htch, .of_data hdata, hcmd, hslen, ?_⟩,
          fun _ hx => (by cases hx)⟩)
        exact .done hs (hok.of_reader rfl) hfr (fun _ hm => hm.2 hver)
          ((h.fill.withDigest (cur.digest ++ bs.take n)).whole h.full)

end

/-! ## Routing -/

theorem validateH2c_spec (hn : q.slots.nslots = q.cfg.sqsize) (cid ttag offset length dataLen : Nat) :
    (∃ e, validateH2c q cid ttag offset length dataLen = .error (.err e)) ∨
      (validateH2c q cid ttag offset length dataLen = .ok ttag ∧ ttag < q.slots.nslots ∧
        (q.slots.slots ttag).state = .receiving ∧ (q.slots.slots ttag).cmd.cid = cid ∧
        offset = (q.slots.slots ttag).recvOffset ∧
        offset + length ≤ (q.slots.slots ttag).dataLen ∧ 0 < length ∧ dataLen = length) := by
  unfold validateH2c
  split
  · exact .inl ⟨_, rfl⟩
  rename_i hlt
  have ht : ttag < q.slots.nslots := by omega
  rw [SlotArray.slot_ok ht, Checked.bind_ok]
  dsimp only
  split
  · exact .inl ⟨_, rfl⟩
  rename_i hvalid
  obtain ⟨hst, hcid, hofs, hend, hpos⟩ := not_not.1 hvalid
  split
  · exact .inl ⟨_, rfl⟩
  rename_i hdl
  exact .inr ⟨rfl, ht, hst, hcid, hofs, hend.2, hpos, not_not.1 hdl⟩

theorem validateH2c_ok {cid ttag offset length : Nat} (hn : q.slots.nslots = q.cfg.sqsize)
    (ht : ttag < q.slots.nslots) (hst : (q.slots.slots ttag).state = .receiving)
    (hcid : (q.slots.slots ttag).cmd.cid = cid) (hoff : offset = (q.slots.slots ttag).recvOffset)
    (hend : offset + length ≤ (q.slots.slots ttag).dataLen) (hpos : 0 < length)
    (hmdts : (q.slots.slots ttag).dataLen ≤ mdtsBytes) :
    validateH2c q cid ttag offset length length = .ok ttag := by
  have hsmall : mdtsBytes < 2 ^ 32 := by decide
  unfold validateH2c
  rw [if_neg (by omega), SlotArray.slot_ok ht, Checked.bind_ok]
  dsimp only
  rw [if_neg, if_neg (by simp)]
  · rfl
  · exact not_not.2 ⟨hst, hcid, hoff, ⟨by omega, hend⟩, hpos⟩

/-- A retained payload's region begins in what the reader has settled. -/
theorem Retained.arrived_nil {p : Pos} {w : Window} {len : Nat} (h : LinkOk.Retained l p w t len l')
    (hw : WindowOk l w) {b off n : Nat} (hwin : w = .ring b off n) :
    Arrived l' (.ring b off len) [] := by
  refine ⟨by simp, ?_⟩
  rintro m' b' off' len' hr' hd
  cases hd
  obtain ⟨hok', -⟩ := h.ok.ring m' hr'
  have hw' := hw.samePlace h.steady.samePlace
  rw [hwin] at hw'
  unfold WindowOk at hw'
  simp only [hr'] at hw'
  obtain ⟨c, hc, rfl, hle, hsum⟩ := hw'
  exact (hok'.cur_settled hc).mono (by simp only [List.length_nil]; omega)

theorem Retained.linkStep {p : Pos} {w : Window} {len : Nat} (h : LinkOk.Retained l p w t len l')
    (hl : LinkOk l p) (ht : t < l.queue.slots.nslots) :
    ∃ b off n, w = .ring b off n ∧
      LinkStep l l' p t { l.queue.slots.slots t with data := .ring b off len } [] ∧
      ∀ m, l'.reader = .ring m → off + len ≤ m.ring.bufSize := by
  obtain ⟨m, b, off, n, hr, hwin, hle, hq⟩ := h.place
  refine ⟨b, off, n, hwin, ⟨h.ok, ?_, h.steady⟩, ?_⟩
  · rw [hq]
    exact hl.setData ht _
  · intro m' hr'
    obtain ⟨m₁, hm₁, -, hsize⟩ := Reader.Rel.of_ring h.steady.samePlace hr'
    obtain rfl := Reader.ring.inj (hr.symm.trans hm₁)
    exact hsize ▸ hle

section
variable {dd : Bool} {l : Link} {p : Pos} {w : Window} {t : Nat} {cur : Pdu} {pdu : DecodedPdu}

/-- The header of an H2CData PDU was accepted: its payload comes next. -/
structure Opened (dd : Bool) (l : Link) (p : Pos) (w : Window) (ps : List Pdu) (cur : Pdu)
    (pdu : DecodedPdu) (l' : Link) (d : DataPhase) : Prop where
  lt : d.tag < l.queue.slots.nslots
  state : (l.queue.slots.slots d.tag).state = .receiving
  step : ∃ s, LinkStep l l' p d.tag s [] ∧ s.state = .receiving ∧
    s.cmd = (l.queue.slots.slots d.tag).cmd ∧ s.dataLen = (l.queue.slots.slots d.tag).dataLen ∧
    s.recvOffset = (l.queue.slots.slots d.tag).recvOffset ∧ DataOk dd l' ps s cur d 0 pdu ∧
    (d.retained = true → ∀ b off len, s.data = .ring b off len → ∃ n, w = .ring b off n)

theorem handlePdu_h2c (dd : Bool) (cur : Pdu) (hl : LinkOk l p) (hw : WindowOk l w)
    (hhdr : HeaderOf cur.hdr pdu) (hpay : cur.payload = []) (hdig : cur.digest = [])
    {cid ttag offset length : Nat} {last : Bool}
    (hk : pdu.kind = .h2cData cid ttag offset length last)
    (hslot : ttag < l.queue.slots.nslots → SlotOk l ttag ps (l.queue.slots.slots ttag)) :
    (∃ e, handlePdu l pdu dd w = .error (.err e) ∧
        validateH2c l.queue cid ttag offset length pdu.dataLen ≠ .ok ttag) ∨
      ∃ l' d, handlePdu l pdu dd w = .ok (.payload l' d) ∧ d.tag = ttag ∧
        d.kind = .h2c last length ∧ Opened dd l p w ps cur pdu l' d := by
  unfold handlePdu
  rw [hk]
  dsimp only
  rcases validateH2c_spec hl.nslots cid ttag offset length pdu.dataLen with
    ⟨e, he⟩ | ⟨hv, ht, hst, hcid, hofs, hend, hpos, hdl⟩
  · exact .inl ⟨e, by rw [he]; rfl, by rw [he]; intro hx; cases hx⟩
  have hwait : Waiting l ttag ps (l.queue.slots.slots ttag) := by
    rcases (hslot ht).receiving hst with h0 | hwait
    · omega
    · exact hwait
  obtain ⟨segs, hsegs, hlease⟩ := hwait.lease
  have hfree : ∀ b, borrows b (l.queue.slots.slots ttag) = false := by
    intro b
    unfold borrows
    rw [hsegs]
  have hstart : offset = (payloads ps).length := by rw [hofs, hwait.offset]
  have hsrc : ∀ s : Slot Sqe, s.cmd = (l.queue.slots.slots ttag).cmd →
      s.dataLen = (l.queue.slots.slots ttag).dataLen →
      FillSource ttag offset (.h2c last length) pdu ps s := by
    intro s hc hd
    refine .h2c last cid (by rw [hdl]) (by rw [hk, hdl]) ⟨?_, ?_, hwait.solicited.ranges⟩
    · rw [hc]; exact hwait.solicited.r2t
    · rw [hc, hd]; exact hwait.solicited.len
  rw [hv, Checked.bind_ok, Link.retainWhole, SlotArray.slot_ok ht, Checked.bind_ok]
  -- without retention the payload is copied into the lease made when the R2T was queued
  have hcopied : Opened dd l p w ps cur pdu l
      ⟨ttag, offset, length, 0, pdu.ddgst && dd, .h2c last length, false⟩ := by
    refine ⟨ht, hst, l.queue.slots.slots ttag, (hl.untouched ttag).linkStep hl (.of_data rfl), hst, rfl,
      rfl, rfl, ?_, fun h => (by cases h)⟩
    refine ⟨⟨hhdr, hst, hsrc _ rfl rfl, hstart, hofs.symm, by dsimp only; omega,
      .inl ⟨segs, hsegs, hlease⟩, hwait.mdts, ?_⟩, by simp [hdl], hpos, hdig, rfl, fun _ => ?_,
      fun h => (by cases h), fun _ => ⟨segs, hsegs⟩⟩
    · rw [hpay, List.append_nil]
      exact hwait.arrived
    · rw [hpay]
      exact crc32c_nil.symm
  split
  · rename_i hwhole
    obtain ⟨h0, hlen⟩ := hwhole
    rcases hl.retain RecvEnd ht w length hfree with hno | ⟨l', hyes, hret⟩
    · rw [hno]
      exact .inr ⟨_, _, rfl, rfl, rfl, hcopied⟩
    · rw [hyes]
      obtain ⟨b, off, n, hwin, hstep, hbound⟩ := Retained.linkStep hret hl ht
      have hnil : payloads ps = [] := List.length_eq_zero_iff.1 (by omega)
      refine .inr ⟨l', _, rfl, rfl, rfl, ht, hst, _, hstep, hst, rfl, rfl, rfl, ?_, ?_⟩
      · refine ⟨⟨hhdr, hst, hsrc _ rfl rfl, hstart, hofs.symm, by dsimp only; omega,
          .inr ⟨b, off, ?_, ?_, h0⟩, hwait.mdts, ?_⟩, by simp [hdl], hpos, hdig, rfl, fun _ => ?_,
          fun _ => ⟨b, off, _, rfl, ?_⟩, fun h => (by cases h)⟩
        · rw [hdl]
        · rw [hdl]
          exact hlen.symm
        · rw [hpay, hnil]
          exact Retained.arrived_nil hret hw hwin
        · rw [hpay]
          exact crc32c_nil.symm
        · rw [hdl]
          exact hbound
      · rintro - b' off' len' hd
        cases hd
        exact ⟨n, hwin⟩
  · exact .inr ⟨_, _, rfl, rfl, rfl, hcopied⟩

theorem landing_spec (hl : LinkOk l p) (hw : WindowOk l w) (ht : t < l.queue.slots.nslots)
    (hempty : (l.queue.slots.slots t).data = .empty) (len : Nat) (segs : List (List UInt8)) :
    ∃ l' d r, (l.landing w t len segs : Checked RecvEnd _) = .ok (l', r) ∧
      LinkStep l l' p t { l.queue.slots.slots t with data := d } [] ∧ Arrived l' d [] ∧
      ((r = false ∧ d = .leased segs) ∨
        ∃ b off n, r = true ∧ d = .ring b off len ∧ w = .ring b off n ∧
          ∀ m, l'.reader = .ring m → off + len ≤ m.ring.bufSize) := by
  have hfree : ∀ b, borrows b (l.queue.slots.slots t) = false := by
    intro b
    unfold borrows
    rw [hempty]
  unfold Link.landing
  rcases hl.retain RecvEnd ht w len hfree with hno | ⟨l', hyes, hret⟩
  · obtain ⟨l', hset, hstep⟩ := hl.leases ht segs
    rw [hno, Checked.bind_ok]
    dsimp only
    rw [if_neg (by decide), hset, Checked.bind_ok]
    exact ⟨l', .leased segs, false, rfl, hstep, .nil_leased _ _, .inl ⟨rfl, rfl⟩⟩
  · obtain ⟨b, off, n, hwin, hstep, hbound⟩ := Retained.linkStep hret hl ht
    rw [hyes, Checked.bind_ok]
    dsimp only
    rw [if_pos rfl]
    exact ⟨l', .ring b off len, true, rfl, hstep, Retained.arrived_nil hret hw hwin,
      .inr ⟨b, off, n, rfl, rfl, hwin, hbound⟩⟩

/-- What a command capsule for the claimed tag `t` leads to: its payload comes next, or the PDU
is over. -/
inductive Accepted (dd : Bool) (l : Link) (p : Pos) (w : Window) (t : Nat) (cur : Pdu)
    (pdu : DecodedPdu) (l' : Link) : RecvPhase → Prop
  | payload (d : DataPhase) (s : Slot Sqe) (tag : d.tag = t) (step : LinkStep l l' p t s [])
      (data : DataOk dd l' [] s cur d 0 pdu)
      (here : d.retained = true → ∀ b off len, s.data = .ring b off len → ∃ n, w = .ring b off n) :
      Accepted dd l p w t cur pdu l' (.data d)
  | headerOnly (s : Slot Sqe) (ws : List SendWork) (step : LinkStep l l' p t s ws)
      (asked : ws = [] ∧ s.state = .ready ∨
        ws = [.r2t t s.cmd.cid 0 s.dataLen] ∧ s.state = .receiving ∧ s.recvOffset = 0)
      (ok : SlotOk l' t [] s) (framed : Framed dd cur) : Accepted dd l p w t cur pdu l' .header

theorem HeaderOf.framed {sqe : Sqe} (hhdr : HeaderOf cur.hdr pdu)
    (hk : pdu.kind = .capsuleCmd sqe) (hpay : cur.payload = []) (hdig : cur.digest = [])
    (h0 : pdu.dataLen = 0) : Framed dd cur := by
  have hoff : pdu.ddgst = false := by
    cases hd : pdu.ddgst with
    | false => rfl
    | true => exact absurd (hhdr.pos hd) (by omega)
  have hflag : cur.hasDdgst = false := by
    rw [← hoff]
    exact (hhdr.capsuleCmd hk).2.2.symm
  have hplen := hhdr.plen
  rw [hoff, h0] at hplen
  unfold Framed
  rw [hpay, hdig, hflag]
  exact hplen

theorem handleCapsuleCmd_spec (dd : Bool) {sqe : Sqe} {segs : List (List UInt8)} (hl : LinkOk l p)
    (hw : WindowOk l w) (ht : t < l.queue.slots.nslots)
    (hst : (l.queue.slots.slots t).state = .receiving)
    (hempty : (l.queue.slots.slots t).data = .empty)
    (h0 : (l.queue.slots.slots t).dataLen = 0) (hro : (l.queue.slots.slots t).recvOffset = 0)
    (hhdr : HeaderOf cur.hdr pdu) (hk : pdu.kind = .capsuleCmd sqe)
    (hpay : cur.payload = []) (hdig : cur.digest = [])
    (hlease : SlotData.LeaseOk (if pdu.dataLen > 0 then pdu.dataLen else sqe.dptr.length) segs) :
    (∃ e, handleCapsuleCmd l w t segs sqe pdu.dataLen (pdu.ddgst && dd) = .error (.err e) ∧
        ¬SizeOk sqe pdu.dataLen) ∨
      ∃ l' phase, handleCapsuleCmd l w t segs sqe pdu.dataLen (pdu.ddgst && dd)
        = .ok (l', phase) ∧ Accepted dd l p w t cur pdu l' phase := by
  unfold handleCapsuleCmd
  split
  · rename_i hpos
    rw [if_pos hpos] at hlease
    split
    · rename_i hbig
      exact .inl ⟨_, rfl, fun hsz => absurd hsz.1 (by omega)⟩
    rename_i hmdts
    obtain ⟨l', d, r, hland, hstep, harr, hcase⟩ := landing_spec hl hw ht hempty pdu.dataLen segs
    have hslot := hstep.slot
    have ht' := hstep.lt ht
    have hst' : (l'.queue.slots.slots t).state = .receiving := by rw [hslot]; exact hst
    rw [hland, Checked.bind_ok]
    dsimp only
    rw [NvmeTcpQueue.modifySlot_ok ht', Checked.bind_ok, NvmeTcpQueue.stashCmd_ok (by exact ht')
      (by simpa using hst'), Checked.bind_ok]
    simp only [NvmeTcpQueue.withSlot_self, NvmeTcpQueue.withSlot_withSlot]
    let s : Slot Sqe := { l'.queue.slots.slots t with dataLen := pdu.dataLen, cmd := sqe }
    have htouch : Touched l'.queue (l'.queue.withSlot t s) t s [] :=
      .withSlot hstep.ok.slots hstep.ok.sqhd ht' hst' (by simp [s, hst']) (by simp [s, hst'])
    have hdata : s.data = d := by rw [show s.data = (l'.queue.slots.slots t).data from rfl, hslot]
    refine .inr ⟨_, _, rfl, .payload _ s rfl (hstep.then htouch (.of_data hdata)) ?_ ?_⟩
    · refine ⟨⟨hhdr, hst', .inCapsule rfl hk rfl rfl, rfl, ?_, ?_, ?_, Nat.not_lt.1 hmdts, ?_⟩,
        rfl, hpos, hdig, rfl, fun _ => (by rw [hpay]; exact crc32c_nil.symm), ?_, ?_⟩
      · rw [show s.recvOffset = (l'.queue.slots.slots t).recvOffset from rfl, hslot]
        exact hro
      · dsimp only [s]; omega
      · rw [hdata]
        rcases hcase with ⟨-, hd⟩ | ⟨b, off, n, -, hd, -, -⟩
        · exact .inl ⟨segs, hd, hlease⟩
        · exact .inr ⟨b, off, hd, rfl, rfl⟩
      · rw [hdata, hpay]
        exact harr.of_reader rfl
      · intro hr
        rw [hdata]
        rcases hcase with ⟨hf, -⟩ | ⟨b, off, n, -, hd, -, hbound⟩
        · rw [show r = true from hr] at hf
          cases hf
        · exact ⟨b, off, _, hd, hbound⟩
      · intro hr
        rw [hdata]
        rcases hcase with ⟨-, hd⟩ | ⟨b, off, n, hf, -, -, -⟩
        · exact ⟨segs, hd⟩
        · rw [show r = false from hr] at hf
          cases hf
    · intro hr b off len hd
      rw [hdata] at hd
      rcases hcase with ⟨hf, -⟩ | ⟨b', off', n, -, hd', hwin, -⟩
      · rw [show r = true from hr] at hf
        cases hf
      · rw [hd] at hd'
        cases hd'
        exact ⟨n, hwin⟩
  rename_i hpos
  rw [if_neg hpos] at hlease
  have hzero : pdu.dataLen = 0 := by omega
  have hfr : Framed dd cur := HeaderOf.framed hhdr hk hpay hdig hzero
  split
  · rename_i hr2t
    dsimp only
    split
    · rename_i hbig
      exact .inl ⟨_, rfl, fun hsz => absurd (hsz.2 hzero hr2t) (by omega)⟩
    rename_i hmdts
    obtain ⟨l', hset, hstep⟩ := hl.leases ht segs
    have hslot := hstep.slot
    have ht' := hstep.lt ht
    have hst' : (l'.queue.slots.slots t).state = .receiving := by rw [hslot]; exact hst
    rw [hset, Checked.bind_ok, NvmeTcpQueue.modifySlot_ok ht', Checked.bind_ok,
      NvmeTcpQueue.stashCmd_ok (by exact ht') (by simpa using hst'), Checked.bind_ok]
    simp only [NvmeTcpQueue.withSlot_self, NvmeTcpQueue.withSlot_withSlot]
    rw [NvmeTcpQueue.solicit_ok (by exact ht') (by simpa using hst'), Checked.bind_ok]
    let s : Slot Sqe :=
      { l'.queue.slots.slots t with dataLen := sqe.dptr.length, recvOffset := 0, cmd := sqe }
    have htouch : Touched l'.queue ((l'.queue.withSlot t s).push (.r2t t sqe.cid 0 sqe.dptr.length))
        t s [.r2t t sqe.cid 0 sqe.dptr.length] := by
      have := Touched.withSlot (s := s) hstep.ok.slots hstep.ok.sqhd ht' hst' (by simp [s, hst'])
        (by simp [s, hst'])
      exact ⟨this.cfg, this.sqhd, this.slots, this.nslots, this.wf, rfl⟩
    have hdata : s.data = .leased segs := by
      rw [show s.data = (l'.queue.slots.slots t).data from rfl, hslot]
    have hstate : s.state = .receiving := hst'
    refine .inr ⟨_, _, rfl, .headerOnly s _ (hstep.then htouch (.of_data hdata))
      (.inr ⟨rfl, hstate, rfl⟩) (.of_waiting hstate ⟨⟨hr2t, rfl, trivial⟩, rfl, Nat.zero_le _,
        by dsimp only [s]; omega, ⟨segs, hdata, hlease⟩, ?_⟩) hfr⟩
    rw [hdata]
    exact .nil_leased _ _
  · rename_i hr2t
    rw [NvmeTcpQueue.submit_ok ht hst, Checked.bind_ok]
    let s : Slot Sqe := { l.queue.slots.slots t with cmd := sqe, state := .ready }
    have htouch := (Touched.withSlot (s := s) hl.slots hl.sqhd ht hst (by simp [s])
      (by simp [s])).traffic true
    refine .inr ⟨_, _, rfl, .headerOnly s [] (htouch.linkStep hl (.of_data rfl))
      (.inl ⟨rfl, rfl⟩) (.of_ready rfl ⟨.nothing rfl h0 (by simpa using hr2t), h0.symm, ?_⟩) hfr⟩
    show Arrived _ (l.queue.slots.slots t).data []
    rw [hempty]
    exact ⟨rfl, fun _ _ _ _ _ h => (by cases h)⟩

end

end Ioutgt.Tcp
