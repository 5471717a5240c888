import Ioutgt.Tcp.Proof.RecvRound

/-!
# Claiming tags, and the direct path

* `Inv.claim`: a command capsule gets its tag.
* `Inv.recvmsg`: a payload tail is received straight into its slot.
-/

namespace Ioutgt.Tcp

open Lib Ioutgt.Core Ioutgt.Nvme Ioutgt.Uring

variable {w : Watched} {p : Pos} {a : Action} {c' : Conn} {bs : List UInt8} {l' : Link} {t : Nat}
  {s : Slot Sqe}

/-! ## Claiming a tag -/

theorem LinkStep.after {l : Link} {q : NvmeTcpQueue} {s₁ : Slot Sqe} {ws : List SendWork}
    (h : LinkStep { l with queue := q } l' p t s ws) (htouch : Touched l.queue q t s₁ []) :
    LinkStep l l' p t s ws where
  ok := h.ok
  touched := htouch.trans h.touched
  steady := h.steady

theorem Inv.capsule_over {win : Window} {ws : List SendWork} (h : Inv w p)
    (hwas : w.conn.stopped = false) (hp : w.conn.phase = .header) (h0 : w.conn.decoder.have_ = 0)
    (hne : w.cur ≠ .empty) (hfr : Framed w.conn.dataDigest w.cur)
    (hlt : t < w.conn.link.queue.slots.nslots) (hfree : (w.conn.slot t).state = .free)
    (hstep : LinkStep w.conn.link l' p t s ws)
    (hasked : ws = [] ∧ s.state = .ready ∨
      ws = [.r2t t s.cmd.cid 0 s.dataLen] ∧ s.state = .receiving ∧ s.recvOffset = 0)
    (hok : SlotOk l' t [] s) (hwin : WindowOk w.conn.link win)
    (hstream : (Pc.inner win).unread w.conn.link ++ w.conn.link.reader.unread p =
      w.unread p ++ a.received) :
    Inv (w.note a { w.conn with link := l', phase := .header, pc := .inner win } []) p := by
  let c' : Conn := { w.conn with link := l', phase := .header, pc := .inner win }
  have hb : c'.between = true :=
    Pc.At.between (c := c') (l := l') (hwin.samePlace hstep.steady.samePlace) rfl h0
  have hactive : w.conn.active = none := by rw [Conn.active, hp]
  have hsl := h.slots t hlt
  obtain ⟨hquiet, hnf, hnr⟩ : (∀ u, completionsFor u ws = []) ∧ s.state ≠ .free ∧
      s.state ≠ .responding := by
    rcases hasked with ⟨rfl, hs⟩ | ⟨rfl, hs, -⟩ <;>
      exact ⟨fun _ => rfl, by rw [hs]; decide, by rw [hs]; decide⟩
  have htake : w.conn.taking w.cur [] = w.cur := Conn.taking_nil _ _
  obtain ⟨hslot, hans⟩ := w.note_touched a c' [] hstep
  obtain ⟨hcur, -, hgot⟩ := w.note_finished a c' [] hb (by rw [htake]; exact hne)
  rw [if_neg hnf, hquiet, hsl.answers.none (by rw [hfree]; decide)] at hans
  refine h.touching hstep hwas rfl rfl h.decoder h.open_ h0 (fun u _ => hquiet u) (fun u _ => ?_) hlt
    (fun _ => by rw [htake]; exact hfr) ?_ ⟨hwin.samePlace hstep.steady.samePlace, ?_⟩ hstream
  · show (none : Option Nat) = some u ↔ w.conn.active = some u
    rw [hactive]
  · refine .of_note hslot ?_ hans (fun _ => hok) (fun hx => by cases hx) (.fresh hnr)
    rw [hgot, hslot, if_neg hnf, hactive, if_neg (by simp)]
    exact ((hsl.idle (by rw [hactive]; simp)).free hfree).1
  · show (w.note a c' []).cur = ⟨w.conn.decoder.held, [], []⟩
    rw [hcur, List.length_eq_zero_iff.1 ((PduDecoder.held_length h.decoder).trans h0)]
    rfl

theorem Inv.capsule_refused {e : RecvEnd} (h : Inv w p) (hp : w.conn.phase = .header)
    (hlt : t < w.conn.link.queue.slots.nslots) (hfree : (w.conn.slot t).state = .free)
    (hstep : LinkStep w.conn.link l' p t s []) (hs : s.state = .receiving) (h0 : s.dataLen = 0) :
    Inv (w.note a { w.conn with link := l', pc := .ended (some e) } []) p := by
  let c' : Conn := { w.conn with link := l', pc := .ended (some e) }
  have hactive : w.conn.active = none := by rw [Conn.active, hp]
  have hb : c'.between = false := by
    unfold Conn.between
    rw [show c'.phase = .header from hp]
  have hsl := h.slots t hlt
  obtain ⟨hslot, hans⟩ := w.note_touched a c' [] hstep
  obtain ⟨-, -, hgot⟩ := w.note_unfinished a c' [] (.inl hb)
  rw [hs, if_neg (by decide), hsl.answers.none (by rw [hfree]; decide)] at hans
  have hnone : ∀ u, w.conn.active ≠ some u := by simp [hactive]
  refine h.idle _ _ rfl rfl rfl hstep.ok hstep.steady.samePlace.sameSize hstep.touched.nslots ?_
    (fun u hu => absurd hu (hnone u)) (fun hx => by cases hb.symm.trans hx) ?_
    (fun hx => by cases hx) fun _ => trivial
  · refine h.slots_touched c' rfl hstep (fun _ _ => rfl) (fun _ _ => Iff.rfl) ?_
    refine .of_note hslot ?_ hans (fun _ => ?_) (fun hx => absurd hx (hnone t))
      (.fresh (by rw [hs]; decide))
    · rw [hgot, hslot, hs, if_neg (by decide)]
      exact ((hsl.idle (hnone t)).free hfree).1
    · refine ⟨fun hx => ?_, fun _ => .inl h0, fun hx => ?_⟩ <;>
      · rw [hs] at hx
        cases hx
  · rintro ⟨_, _, _, _, hx⟩
    cases hx

/-- The capsule of `sqe` waits for a tag, with `win` still to be looked at. -/
structure Awaits (w : Watched) (win : Window) (sqe : Sqe) (pdu : DecodedPdu) : Prop where
  pc : w.conn.pc = .awaitTag win sqe pdu.dataLen (pdu.ddgst && w.conn.dataDigest)
  phase : w.conn.phase = .header
  window : WindowOk w.conn.link win
  hdr : HeaderOf w.cur.hdr pdu
  kind : pdu.kind = .capsuleCmd sqe
  payload : w.cur.payload = []
  digest : w.cur.digest = []

theorem Accepted.after {dd : Bool} {l : Link} {q : NvmeTcpQueue} {win : Window} {cur : Pdu}
    {pdu : DecodedPdu} {s₁ : Slot Sqe} {phase : RecvPhase}
    (h : Accepted dd { l with queue := q } p win t cur pdu l' phase)
    (htouch : Touched l.queue q t s₁ []) : Accepted dd l p win t cur pdu l' phase := by
  cases h with
  | payload d s tag step data here => exact .payload d s tag (step.after htouch) data here
  | headerOnly s ws step asked ok framed =>
    exact .headerOnly s ws (step.after htouch) asked ok framed

/-- The waiting capsule got the free tag `t`, and was refused for its size or accepted. -/
inductive Claimed (w : Watched) (p : Pos) (win : Window) (sqe : Sqe) (pdu : DecodedPdu) (t : Nat) :
    Conn → Prop
  | refused (e : RecvEnd) (l' : Link) (s : Slot Sqe) (size : ¬SizeOk sqe pdu.dataLen)
      (step : LinkStep w.conn.link l' p t s []) (state : s.state = .receiving)
      (len : s.dataLen = 0) : Claimed w p win sqe pdu t { w.conn with
        link := l', pc := .ended (some e) }
  | accepted (l' : Link) (phase : RecvPhase)
      (ok : Accepted w.conn.dataDigest w.conn.link p win t w.cur pdu l' phase) :
      Claimed w p win sqe pdu t { w.conn with link := l', phase, pc := .inner win }

theorem claim_spec {segs : List (List UInt8)} (h : Inv w p)
    (hs : w.conn.step (.claim segs) = some (c', bs)) :
    bs = [] ∧ ∃ win sqe pdu t, Awaits w win sqe pdu ∧ t < w.conn.link.queue.slots.nslots ∧
      (w.conn.slot t).state = .free ∧ Claimed w p win sqe pdu t c' := by
  unfold Conn.step at hs
  dsimp only at hs
  split at hs
  swap
  · cases hs
  rename_i win sqe dataLen ddgst hc
  by_cases hlease : SlotData.LeaseOk (if dataLen > 0 then dataLen else sqe.dptr.length) segs
  swap
  · rw [if_neg hlease] at hs
    cases hs
  rw [if_pos hlease] at hs
  have hpc := h.pc
  unfold PcOk at hpc
  simp only [hc] at hpc
  obtain ⟨hwin, hp, pdu, hhdr, hk, rfl, rfl, hpay, hdig⟩ := hpc
  unfold Conn.claim at hs
  rcases h.link.slots.claimTag (ε := RecvEnd) with ⟨-, hno⟩ | ⟨t, rest, -, hlt, hfree, hyes, hwf⟩
  · rw [hno] at hs
    cases hs
  rw [hyes] at hs
  simp only [Option.map_some] at hs
  obtain ⟨rfl, rfl⟩ := Prod.mk.inj (Option.some.inj hs)
  have hold : (w.conn.slot t).state = .free := hfree
  obtain ⟨-, hempty⟩ := ((h.slots t hlt).idle (by rw [Conn.active, hp]; simp)).free hold
  let s₁ : Slot Sqe := SlotArray.claimed (w.conn.link.queue.slots.slots t)
  let l₁ : Link := { w.conn.link with queue := { w.conn.link.queue with
    slots := { w.conn.link.queue.slots with freeTags := rest }.put t s₁ } }
  have htouch : Touched w.conn.link.queue l₁.queue t s₁ [] :=
    ⟨rfl, h.link.sqhd, rfl, rfl, hwf, (List.append_nil _).symm⟩
  have hstep₁ : LinkStep w.conn.link l₁ p t s₁ [] := htouch.linkStep h.link (.of_data rfl)
  have hslot₁ : l₁.queue.slots.slots t = s₁ := SlotArray.put_self _ _ _
  refine ⟨rfl, win, sqe, pdu, t, ⟨hc, hp, hwin, hhdr, hk, hpay, hdig⟩, hlt, hold, ?_⟩
  rcases handleCapsuleCmd_spec w.conn.dataDigest hstep₁.ok (hwin.samePlace hstep₁.steady.samePlace) hlt
    (by rw [hslot₁]; rfl) (by rw [hslot₁]; exact hempty) (by rw [hslot₁]; rfl)
    (by rw [hslot₁]; rfl) hhdr hk hpay hdig hlease with ⟨e, he, hsize⟩ | ⟨l', phase, hok, hacc⟩
  · rw [he]
    exact .refused e l₁ s₁ hsize hstep₁ rfl rfl
  · rw [hok]
    exact .accepted l' phase (hacc.after htouch)

theorem Inv.claim {segs : List (List UInt8)} (h : Inv w p)
    (hs : w.conn.step (.claim segs) = some (c', bs)) : Inv (w.note (.claim segs) c' bs) p := by
  obtain ⟨rfl, win, sqe, pdu, t, hw, hlt, hold, hcl⟩ := claim_spec h hs
  have hwas : w.conn.stopped = false := by
    unfold Conn.stopped
    rw [hw.pc]
  have h0 : w.conn.decoder.have_ = 0 := h.fresh (.inr ⟨_, _, _, _, hw.pc⟩)
  have htake : w.conn.taking w.cur [] = w.cur := Conn.taking_nil _ _
  have hstream : (Pc.inner win).unread w.conn.link ++ w.conn.link.reader.unread p
      = w.unread p ++ (Action.claim segs).received := by
    show _ = w.unread p ++ []
    rw [Watched.unread, hw.pc, List.append_nil]
    rfl
  cases hcl with
  | refused e l' s size step state len =>
    exact h.capsule_refused hw.phase hlt hold step state len
  | accepted l' phase ok =>
    cases ok with
    | payload d s tag step data here =>
      subst tag
      have hgot := ((h.slots d.tag hlt).idle (by rw [Conn.active, hw.phase]; simp)).free hold
      refine h.opens hwas hw.phase h.decoder ⟨h0, h.open_⟩ hlt (by rw [hold]; decide) step
        (by rw [htake, hgot.1]; exact data) (by rw [htake]; exact hw.payload) here hw.window ?_
      exact hstream
    | headerOnly s ws step asked ok framed =>
      refine h.capsule_over hwas hw.phase h0 ?_ framed hlt hold step asked ok hw.window hstream
      rw [← htake]
      exact Watched.taking_ne hw.hdr []

/-! ## The direct path -/

/-- A direct receive under way: the payload of `d` had `k` bytes when it started. -/
structure Direct (w : Watched) (d : DataPhase) (subs iovs : List Piece) (pdu : DecodedPdu)
    (segs : List (List UInt8)) (k : Nat) : Prop where
  data : DataOk w.conn.dataDigest w.conn.link (w.got d.tag) (w.conn.slot d.tag) w.cur d k pdu
  leased : (w.conn.slot d.tag).data = .leased segs
  started : k ≤ w.cur.payload.length
  le : w.cur.payload.length ≤ pdu.dataLen
  subs : Covers (segs.map List.length) subs (d.base + k) d.remaining
  iovs : Covers (segs.map List.length) iovs (d.base + w.cur.payload.length)
    (pdu.dataLen - w.cur.payload.length)

section
variable {d : DataPhase} {subs iovs : List Piece} {pdu : DecodedPdu} {segs : List (List UInt8)}
  {k : Nat}

theorem Direct.lease (h : Direct w d subs iovs pdu segs k) :
    SlotData.LeaseOk (w.conn.slot d.tag).dataLen segs := by
  rcases h.data.fill.buffer with ⟨segs', hd, hle⟩ | ⟨b, off, hd, -⟩
  · rw [h.leased] at hd
    cases hd
    exact hle
  · rw [h.leased] at hd
    cases hd

theorem Direct.scatter (h : Direct w d subs iovs pdu segs k)
    (hbs : bs.length ≤ pdu.dataLen - w.cur.payload.length) :
    (Lib.scatter segs iovs bs).map List.length = segs.map List.length ∧
      SlotData.LeaseOk (w.conn.slot d.tag).dataLen (Lib.scatter segs iovs bs) ∧
      Arrived w.conn.link (.leased (Lib.scatter segs iovs bs))
        (payloads (w.got d.tag) ++ (w.cur.payload ++ bs)) := by
  have hfits := h.data.fill.fits
  have hcap := h.lease.2
  have hle := h.le
  obtain ⟨hflat, hlens⟩ := scatter_flatten iovs segs h.iovs hbs (by omega)
  refine ⟨hlens, DataPhase.leaseOk_of_lengths hlens h.lease, ?_, fun _ _ _ _ _ hd => by cases hd⟩
  have hold := h.data.fill.arrived.bytes
  rw [h.leased] at hold
  have hat : (payloads (w.got d.tag) ++ w.cur.payload).length = d.base + w.cur.payload.length := by
    rw [List.length_append, ← h.data.fill.start]
  have hlen : (payloads (w.got d.tag) ++ (w.cur.payload ++ bs)).length
      = d.base + w.cur.payload.length + bs.length := by
    rw [← List.append_assoc, List.length_append, hat]
  show ((Lib.scatter segs iovs bs).flatten).take _ = _
  rw [hflat, hlen, take_blit (by omega), ← List.append_assoc, ← hat]
  congr 1

/-- The digest of a tail received directly is taken from the slot. -/
theorem Direct.crc {segs' : List (List UInt8)} (h : Direct w d subs iovs pdu segs k)
    (hlens : segs'.map List.length = segs.map List.length)
    (harr : Arrived w.conn.link (.leased segs') (payloads (w.got d.tag) ++ (w.cur.payload ++ bs)))
    (hfull : (w.cur.payload ++ bs).length = pdu.dataLen) (hon : d.ddgst = true) :
    crc32cAppend d.crc (gather segs' subs) = crc32c (w.cur.payload ++ bs) := by
  have hcount := h.data.count
  have hstart := h.data.fill.start
  have hk := h.started
  have hgather : gather segs' subs = (w.cur.payload ++ bs).drop k := by
    rw [gather_eq subs segs' (by rw [hlens]; exact h.subs)]
    have hbytes : segs'.flatten.take (payloads (w.got d.tag) ++ (w.cur.payload ++ bs)).length
        = payloads (w.got d.tag) ++ (w.cur.payload ++ bs) := harr.bytes
    rw [List.length_append, ← hstart, hfull] at hbytes
    have hsplit : d.base + pdu.dataLen = d.base + k + d.remaining := by omega
    rw [hsplit] at hbytes
    have hrange : (segs'.flatten.drop (d.base + k)).take d.remaining
        = (segs'.flatten.take (d.base + k + d.remaining)).drop (d.base + k) := by
      rw [List.drop_take, Nat.add_sub_cancel_left]
    rw [hrange, hbytes, List.drop_append, List.drop_eq_nil_of_le (by omega), List.nil_append]
    congr 1
    omega
  have htake : w.cur.payload.take k = (w.cur.payload ++ bs).take k :=
    (List.take_append_of_le_length hk).symm
  rw [h.data.crc hon, htake, hgather, crc32c_append, List.take_append_drop]

def Conn.scattered (c : Conn) (d : DataPhase) (segs : List (List UInt8)) : Conn :=
  let queue := c.link.queue.withSlot d.tag { c.slot d.tag with data := .leased segs }
  c.relink { c.link with queue }

theorem Direct.recvmsg_eq (h : Direct w d subs iovs pdu segs k)
    (hlt : d.tag < w.conn.link.queue.slots.nslots)
    (hbs : bs.length ≤ pdu.dataLen - w.cur.payload.length) :
    w.conn.recvmsg d subs iovs bs =
      (let c₁ := w.conn.scattered d (Lib.scatter segs iovs bs)
       let left := pdu.dataLen - w.cur.payload.length - bs.length
       if left = 0 ∨ bs = [] then c₁.finishDirect d subs (d.remaining - left)
       else .ok { c₁ with pc := .direct d subs (advance iovs bs.length) }) := by
  have hslot : (w.conn.link.queue.slots.slots d.tag).data = .leased segs := h.leased
  have htotal := covers_total (advance_covers h.iovs hbs)
  have hsum := covers_total h.subs
  have hcount := h.data.count
  have hstarted := h.started
  unfold Conn.recvmsg
  rw [SlotArray.slot_ok hlt, Checked.bind_ok]
  simp only [hslot]
  rw [Checked.require_ok _ h.iovs.bounds]
  simp only [Checked.bind_ok, pure_bind]
  rw [NvmeTcpQueue.modifySlot_ok hlt, Checked.bind_ok, htotal, hsum,
    Checked.sub_ok (by omega), Checked.bind_ok]
  rfl

theorem Direct.touched (h : Direct w d subs iovs pdu segs k) (hinv : Inv w p)
    (hlt : d.tag < w.conn.link.queue.slots.nslots) (segs' : List (List UInt8)) :
    Touched w.conn.link.queue (w.conn.scattered d segs').link.queue d.tag
        { w.conn.slot d.tag with data := .leased segs' } [] ∧
      SameRegion { w.conn.slot d.tag with data := .leased segs' } (w.conn.slot d.tag) :=
  ⟨⟨rfl, hinv.link.sqhd, rfl, rfl, hinv.link.slots.put_same hlt rfl, (List.append_nil _).symm⟩,
    fun _ _ _ => by simp [h.leased]⟩

theorem Direct.finish (h : Direct w d subs iovs pdu segs k) (hinv : Inv w p)
    (hp : w.conn.phase = .data d)
    (hbs : bs.length ≤ pdu.dataLen - w.cur.payload.length)
    (hfull : (w.cur.payload ++ bs).length = pdu.dataLen) :
    (∃ e, (w.conn.scattered d (Lib.scatter segs iovs bs)).finishDirect d subs d.remaining
        = .error (.err e) ∧ Short (w.conn.slot d.tag) d.kind) ∨
      ∃ q phase s, (w.conn.scattered d (Lib.scatter segs iovs bs)).finishDirect d subs d.remaining
          = .ok { w.conn with link := { w.conn.link with queue := q }, phase, pc := .fill } ∧
        PhaseStep w.conn.dataDigest w.conn.link d.tag d.kind (w.got d.tag) (w.conn.taking w.cur bs) q
          phase s ∧ ∀ d', phase ≠ .data d' := by
  have hact : w.conn.active = some d.tag := by rw [Conn.active, hp]
  have hlt := hinv.active d.tag hact
  obtain ⟨hlens, hlease, harr⟩ := h.scatter hbs
  obtain ⟨htouch, hregion⟩ := h.touched hinv hlt (Lib.scatter segs iovs bs)
  have htake : w.conn.taking w.cur bs = { w.cur with payload := w.cur.payload ++ bs } := by
    rw [Conn.taking, hp]
  generalize hsegs : Lib.scatter segs iovs bs = segs' at *
  let c₁ := w.conn.scattered d segs'
  have hslot₁ : c₁.link.queue.slots.slots d.tag
      = { w.conn.slot d.tag with data := .leased segs' } := NvmeTcpQueue.withSlot_self _ _ _
  have hlt₁ : d.tag < c₁.link.queue.slots.nslots := hlt
  have hlink₁ : LinkOk c₁.link p := htouch.linkOk hinv.link hregion
  let d₁ : DataPhase :=
    { d with crc := if d.ddgst then crc32cAppend d.crc (gather segs' subs) else d.crc }
  have hfill₁ : Filling c₁.link d₁.tag (w.got d.tag) (c₁.link.queue.slots.slots d₁.tag)
      { w.cur with payload := w.cur.payload ++ bs } d₁.base d₁.kind pdu := by
    rw [hslot₁]
    exact (h.data.fill.extend (.inl ⟨segs', rfl, hlease⟩) harr).of_reader rfl
  have hcrc₁ : d₁.ddgst = true → d₁.crc = crc32c (w.cur.payload ++ bs) :=
    fun hon => (if_pos hon).trans (h.crc hlens harr hfull hon)
  unfold Conn.finishDirect
  rw [if_neg (Nat.lt_irrefl _), SlotArray.slot_ok hlt₁, Checked.bind_ok, hslot₁]
  dsimp only
  rcases DataPhase.finish_spec (d := d₁) hlink₁ hlt₁ hfill₁ hfull h.data.noDigest h.data.ddgst
    hcrc₁ with ⟨e, he, hshort⟩ | ⟨q, phase, s, hq, hstep, -, hnd⟩
  · refine .inl ⟨e, by rw [he]; rfl, ?_⟩
    rw [hslot₁] at hshort
    exact hshort
  · refine .inr ⟨q, phase, s, by rw [hq]; rfl, ?_, hnd⟩
    rw [htake]
    exact PhaseStep.after hstep htouch hregion rfl rfl rfl hnd

/-- One receive of the direct path returned `bs`: the peer closed too early, the tail is complete
or more of it is to come. -/
inductive Received (w : Watched) (d : DataPhase) (subs iovs : List Piece) (segs : List (List UInt8))
    (bs : List UInt8) : Conn → Prop
  | closed : Received w d subs iovs segs bs { w.conn with pc := .ended (some .closed) }
  | short (e : RecvEnd) (short : Short (w.conn.slot d.tag) d.kind) :
      Received w d subs iovs segs bs { w.conn with pc := .ended (some e) }
  | whole (q : NvmeTcpQueue) (phase : RecvPhase) (s : Slot Sqe)
      (step : PhaseStep w.conn.dataDigest w.conn.link d.tag d.kind (w.got d.tag)
        (w.conn.taking w.cur bs) q phase s) (notData : ∀ d', phase ≠ .data d') :
      Received w d subs iovs segs bs
        { w.conn with link := { w.conn.link with queue := q }, phase, pc := .fill }
  | more : Received w d subs iovs segs bs
      { w.conn.scattered d (Lib.scatter segs iovs bs) with
        pc := .direct d subs (advance iovs bs.length) }

theorem recvmsg_spec {bs' : List UInt8} (h : Inv w p)
    (hs : w.conn.step (.recvmsg bs) = some (c', bs')) :
    bs' = bs ∧ ∃ d subs iovs pdu segs k, w.conn.pc = .direct d subs iovs ∧
      w.conn.link.reader = .classic ∧ w.conn.phase = .data d ∧
      (∃ last len, d.kind = .h2c last len) ∧ Direct w d subs iovs pdu segs k ∧
      bs.length ≤ pdu.dataLen - w.cur.payload.length ∧ Received w d subs iovs segs bs c' := by
  unfold Conn.step at hs
  dsimp only at hs
  split at hs
  swap
  · cases hs
  rename_i d subs iovs hc
  obtain ⟨hsum, hs⟩ := of_guard hs
  obtain ⟨rfl, rfl⟩ := Prod.mk.inj hs
  have hpc := h.pc
  unfold PcOk at hpc
  simp only [hc] at hpc
  obtain ⟨hr, hp, pdu, segs, k, last, len, hok, hkind, hleased, hstarted, hle, hsubs, hiovs⟩ := hpc
  have hdir : Direct w d subs iovs pdu segs k := ⟨hok, hleased, hstarted, hle, hsubs, hiovs⟩
  rw [covers_total hiovs] at hsum
  refine ⟨rfl, d, subs, iovs, pdu, segs, k, hc, hr, hp, ⟨last, len, hkind⟩, hdir, hsum, ?_⟩
  have hact : w.conn.active = some d.tag := by rw [Conn.active, hp]
  have hlen : (w.cur.payload ++ bs).length = w.cur.payload.length + bs.length := List.length_append
  rw [hdir.recvmsg_eq (h.active d.tag hact) hsum]
  dsimp only
  split
  · by_cases hleft : pdu.dataLen - w.cur.payload.length - bs.length = 0
    · rw [hleft, Nat.sub_zero]
      rcases hdir.finish h hp hsum (by omega) with
        ⟨e, he, hshort⟩ | ⟨q, phase, s, hfin, hstep, hnd⟩
      · rw [he]
        exact .short e hshort
      · rw [hfin]
        exact .whole q phase s hstep hnd
    · -- the connection closed before the tail was complete
      have hcount := hok.count
      rw [Conn.finishDirect, if_pos (by omega)]
      exact .closed
  · exact .more

theorem Inv.recvmsg {bs' : List UInt8} (h : Inv w p)
    (hs : w.conn.step (.recvmsg bs) = some (c', bs')) :
    Inv (w.note (.recvmsg bs) c' bs') p := by
  obtain ⟨rfl, d, subs, iovs, pdu, segs, k, hc, hr, hp, ⟨last, len, hkind⟩, hdir, hsum, hrecv⟩ :=
    recvmsg_spec h hs
  have hok := hdir.data
  have hact : w.conn.active = some d.tag := by rw [Conn.active, hp]
  have hlt := h.active d.tag hact
  have hwas : w.conn.stopped = false := by
    unfold Conn.stopped
    rw [hc]
  have hunread : w.unread p = [] := by
    rw [Watched.unread, hc, hr]
    rfl
  have hpre : bs' = [] ∨
      w.conn.stopped = false ∧ bs' <+: w.unread p ++ (Action.recvmsg bs').received := by
    rw [hunread]
    exact .inr ⟨hwas, List.prefix_rfl⟩
  have htake : w.conn.taking w.cur bs' = { w.cur with payload := w.cur.payload ++ bs' } := by
    rw [Conn.taking, hp]
  have hlen : (w.cur.payload ++ bs').length = w.cur.payload.length + bs'.length :=
    List.length_append
  cases hrecv with
  | closed => exact h.endLoop _ _ _ hpre
  | short e hshort => exact h.endLoop _ _ _ hpre
  | whole q phase s hstep hnd =>
    refine h.phaseStep hwas hact hstep (Watched.taking_ne hok.fill.hdr bs')
      (fun d' hd' => absurd hd' (hnd d')) (fun m hm => ?_) ?_
    · rw [hr] at hm
      cases hm
    · rw [hunread, hr]
      simp [Pc.unread, Reader.unread, Action.received]
  | more =>
    obtain ⟨hlens, hlease, harr⟩ := hdir.scatter hsum
    obtain ⟨htouch, hregion⟩ := hdir.touched h hlt (Lib.scatter segs iovs bs')
    refine h.goesOn hwas hact htouch hregion hok.fill.state hact rfl ?_ ?_
    · intro w' hconn hcur hgot hslot
      have hfill := hok.fill.extend (.inl ⟨_, rfl, hlease⟩) harr
      have hstarted := hdir.started
      have hle := hdir.le
      rw [hconn] at hslot
      unfold PcOk
      rw [hconn]
      dsimp only
      rw [hcur, hgot, hslot, htake]
      refine ⟨hr, hp, pdu, _, k, last, len, ?_, hkind, rfl, ?_, ?_, ?_, ?_⟩
      · refine ⟨hfill.of_reader rfl, hok.count, hok.pos, hok.noDigest, hok.ddgst, fun hon => ?_,
          fun hrt => ?_, fun _ => ⟨_, rfl⟩⟩
        · dsimp only
          rw [List.take_append_of_le_length hstarted]
          exact hok.crc hon
        · obtain ⟨b, off, n, hd, -⟩ := hok.retained hrt
          rw [hdir.leased] at hd
          cases hd
      · dsimp only
        omega
      · dsimp only
        omega
      · rw [hlens]
        exact hdir.subs
      · rw [hlens]
        have := advance_covers hdir.iovs hsum
        dsimp only
        rwa [hlen, ← Nat.add_assoc, ← Nat.sub_sub]
    · rw [hunread, hr]
      simp [Pc.unread, Reader.unread, Action.received]

end

end Ioutgt.Tcp
