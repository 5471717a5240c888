import Ioutgt.Tcp.Proof.RecvWindow

/-!
# Rounds of the inner loop

A round in each phase of the receive loop consumes bytes of the window.

* `Inv.went`: a step of the loop, from what it leaves behind.
* `Rounded`, `Conn.Fails`: what a round does, and why one ends the connection; `round_spec`.
* `Inv.round`: any round keeps the invariant.
-/

namespace Ioutgt.Tcp

open Lib Ioutgt.Core Ioutgt.Nvme Ioutgt.Uring

variable {w : Watched} {p p' : Pos} {a : Action} {c' c : Conn} {bs : List UInt8} {s : Slot Sqe}
  {dec' : PduDecoder} {pdu : DecodedPdu} {d : DataPhase} {l : Link}

theorem Inv.went (h : Inv w p) (hwas : w.conn.stopped = false) (hover : c'.stopped = false)
    (hdd : c'.dataDigest = w.conn.dataDigest) (hlink : LinkOk c'.link p')
    (hdec : c'.decoder.Wf) (hopen : c'.decoder.state ≠ .complete)
    (hfresh : c'.phase ≠ .header ∨ (∃ win sqe n d, c'.pc = .awaitTag win sqe n d) →
      c'.decoder.have_ = 0)
    (hslots : ∀ t < c'.link.queue.slots.nslots, SlotInv (w.note a c' bs) t)
    (hactive : ∀ t, c'.active = some t → t < c'.link.queue.slots.nslots)
    (hframed : c'.between = true → w.conn.taking w.cur bs ≠ .empty →
      Framed w.conn.dataDigest (w.conn.taking w.cur bs))
    (hpc : PcOk (w.note a c' bs) p')
    (hstream : bs ++ (w.note a c' bs).unread p' = w.unread p ++ a.received) :
    Inv (w.note a c' bs) p' := by
  have hs := h.note_stream a c' bs p' (fun _ => ⟨hwas, hstream⟩)
    (.inr ⟨hwas, by rw [← hstream]; exact List.prefix_append _ _⟩)
  exact
    { link := hlink
      decoder := hdec
      open_ := hopen
      fresh := hfresh
      slots := hslots
      active := hactive
      parts := hpc.parts hover
      pc := hpc
      done := h.note_done a hdd hframed
      stream := hs.1
      seen := hs.2 }

theorem Inv.touching {t : Nat} {ws : List SendWork} (h : Inv w p)
    (hstep : LinkStep w.conn.link c'.link p t s ws) (hwas : w.conn.stopped = false)
    (hover : c'.stopped = false) (hdd : c'.dataDigest = w.conn.dataDigest) (hdec : c'.decoder.Wf)
    (hopen : c'.decoder.state ≠ .complete) (hfresh : c'.decoder.have_ = 0)
    (hquiet : ∀ u, u ≠ t → completionsFor u ws = [])
    (hact : ∀ u, u ≠ t → (c'.active = some u ↔ w.conn.active = some u))
    (hlt : t < w.conn.link.queue.slots.nslots)
    (hframed : c'.between = true → Framed w.conn.dataDigest (w.conn.taking w.cur bs))
    (ht : SlotInv (w.note a c' bs) t) (hpc : PcOk (w.note a c' bs) p)
    (hstream : bs ++ (c'.pc.unread w.conn.link ++ w.conn.link.reader.unread p) = w.unread p ++ a.received)
    : Inv (w.note a c' bs) p := by
  refine h.went hwas hover hdd hstep.ok hdec hopen (fun _ => hfresh)
    (h.slots_touched c' hdd hstep hquiet hact ht) (fun u hu => ?_) (fun hx _ => hframed hx) hpc ?_
  · rw [hstep.touched.nslots]
    by_cases hut : u = t
    · exact hut ▸ hlt
    · exact h.active u ((hact u hut).1 hu)
  · rw [← hstream]
    show bs ++ (c'.pc.unread c'.link ++ c'.link.reader.unread p) = _
    rw [Pc.unread_congr hstep.steady.bytesOf, hstep.steady.unread]

/-! ## Headers -/

section
variable {win : Window} {dec : PduDecoder} {n : Nat}

theorem Conn.stopped_inner (hc : c.pc = .inner win) : c.stopped = false := by
  unfold Conn.stopped
  rw [hc]

theorem Conn.between_fed (h : c.decoder.have_ ≠ 0) : c.between = false := by
  unfold Conn.between
  split <;> simp [h]

theorem Watched.inner_stream (hc : w.conn.pc = .inner win) (p : Pos) (n : Nat) :
    (w.conn.link.bytesOf win).take n ++
      ((Pc.inner (win.drop n)).unread w.conn.link ++ w.conn.link.reader.unread p)
        = w.unread p ++ Action.received .round := by
  show _ = w.unread p ++ []
  rw [Watched.unread, hc, Pc.unread, Pc.unread, List.append_nil, Link.bytesOf_drop,
    ← List.append_assoc, List.take_append_drop]

theorem Inv.taking_header (h : Inv w p) (hc : w.conn.pc = .inner win)
    (hp : w.conn.phase = .header) (hf : w.conn.decoder.Fed (w.conn.link.bytesOf win) dec n) :
    w.conn.taking w.cur ((w.conn.link.bytesOf win).take n) = ⟨dec.held, [], []⟩ := by
  have hph := (h.inner_ok hc).2
  unfold PhaseOk at hph
  simp only [hp] at hph
  rw [Conn.taking, hp, hph, hf.held]

theorem Inv.header_more (h : Inv w p) (hc : w.conn.pc = .inner win) (hp : w.conn.phase = .header)
    (hne : w.conn.link.bytesOf win ≠ [])
    (hf : w.conn.decoder.Fed (w.conn.link.bytesOf win) dec n) (hopen : dec.state ≠ .complete) :
    Inv (w.note .round { w.conn with decoder := dec, pc := .inner (win.drop n) }
      ((w.conn.link.bytesOf win).take n)) p := by
  have hpos := hf.pos hne
  have hhave := hf.have_
  let c' : Conn := { w.conn with decoder := dec, pc := .inner (win.drop n) }
  have hb : c'.between = false := Conn.between_fed (show dec.have_ ≠ 0 by omega)
  obtain ⟨hcur, -, -⟩ := w.note_unfinished .round c' ((w.conn.link.bytesOf win).take n) (.inl hb)
  rw [h.taking_header hc hp hf] at hcur
  refine h.went (Conn.stopped_inner hc) rfl rfl h.link hf.wf hopen ?_ ?_ ?_ ?_ ?_ ?_
  · rintro (hph | ⟨_, _, _, _, hx⟩)
    · exact absurd hp hph
    · cases hx
  · exact h.slots_same c' rfl rfl rfl rfl fun _ _ b _ => .of_reader rfl b
  · exact h.active
  · exact fun hx => nomatch hb.symm.trans hx
  · refine ⟨(h.inner_ok hc).1.drop h.link hf.le, ?_⟩
    show PhaseOk (w.note .round c' _) _
    unfold PhaseOk
    rw [Watched.note_conn, show c'.phase = .header from hp]
    exact hcur
  · exact Watched.inner_stream hc p n

def Watched.taken (w : Watched) (win : Window) (n : Nat) : Pdu :=
  w.conn.taking w.cur ((w.conn.link.bytesOf win).take n)

/-- A round of the header phase, with `n` bytes of the window, has the whole header `hdr` of `pdu`;
`dec` awaits the next one. -/
structure Headed (w : Watched) (win : Window) (pdu : DecodedPdu) (hdr : List UInt8)
    (dec : PduDecoder) (n : Nat) : Prop where
  phase : w.conn.phase = .header
  next : w.conn.incoming win = .ok (some pdu)
  le : n ≤ (w.conn.link.bytesOf win).length
  taken : w.taken win n = ⟨hdr, [], []⟩
  ok : HeaderOf hdr pdu
  wf : dec.Wf
  fresh : dec.have_ = 0 ∧ dec.state ≠ .complete

variable {hdr : List UInt8}

theorem Inv.header_capsule {sqe : Sqe} (h : Inv w p) (hc : w.conn.pc = .inner win)
    (hd : Headed w win pdu hdr dec n) (hk : pdu.kind = .capsuleCmd sqe) :
    Inv (w.note .round { w.conn with
        decoder := dec, pc := .awaitTag (win.drop n) sqe pdu.dataLen (pdu.ddgst && w.conn.dataDigest) }
      ((w.conn.link.bytesOf win).take n)) p := by
  let c' : Conn := { w.conn with
    decoder := dec, pc := .awaitTag (win.drop n) sqe pdu.dataLen (pdu.ddgst && w.conn.dataDigest) }
  have hb : c'.between = false := by
    unfold Conn.between
    split
    · rename_i hx
      cases hx
    · rename_i hx
      cases hx
    · rfl
  obtain ⟨hcur, -, -⟩ := w.note_unfinished .round c' ((w.conn.link.bytesOf win).take n) (.inl hb)
  rw [show w.conn.taking w.cur _ = _ from hd.taken] at hcur
  refine h.went (Conn.stopped_inner hc) rfl rfl h.link hd.wf hd.fresh.2 (fun _ => hd.fresh.1) ?_ ?_
    ?_ ?_ ?_
  · exact h.slots_same c' rfl rfl rfl rfl fun _ _ b _ => .of_reader rfl b
  · exact h.active
  · exact fun hx => nomatch hb.symm.trans hx
  · refine ⟨(h.inner_ok hc).1.drop h.link hd.le, hd.phase, pdu, ?_, hk, rfl, rfl, ?_, ?_⟩
    · rw [hcur]
      exact hd.ok
    · rw [hcur]
    · rw [hcur]
  · exact Watched.inner_stream hc p n

theorem Inv.opens {l' : Link} (h : Inv w p) (hwas : w.conn.stopped = false)
    (hp : w.conn.phase = .header) (hwf : dec'.Wf) (hfresh : dec'.have_ = 0 ∧ dec'.state ≠ .complete)
    (hlt : d.tag < w.conn.link.queue.slots.nslots) (hold : (w.conn.slot d.tag).state ≠ .responding)
    (hstep : LinkStep w.conn.link l' p d.tag s [])
    (hdata : DataOk w.conn.dataDigest l' (w.got d.tag) s (w.conn.taking w.cur bs) d 0 pdu)
    (hpay : (w.conn.taking w.cur bs).payload = [])
    (hhere : d.retained = true → ∀ b off len, s.data = .ring b off len → ∃ n, win = .ring b off n)
    (hwin : WindowOk w.conn.link win)
    (hstream : bs ++ ((Pc.inner win).unread w.conn.link ++ w.conn.link.reader.unread p) =
      w.unread p ++ a.received) :
    Inv (w.note a { w.conn with
      decoder := dec', link := l', phase := .data d, pc := .inner win } bs) p := by
  let c' : Conn := { w.conn with decoder := dec', link := l', phase := .data d, pc := .inner win }
  have hst := hdata.fill.state
  have hactive : w.conn.active = none := by rw [Conn.active, hp]
  have hact' : c'.active = some d.tag := rfl
  have hb : c'.between = false := Conn.between_active hact'
  obtain ⟨hslot, hans⟩ := w.note_touched a c' bs hstep
  obtain ⟨hcur, -, hgot⟩ := w.note_unfinished a c' bs (.inl hb)
  rw [hst, if_neg (by decide)] at hans
  have hgot' : (w.note a c' bs).got d.tag = w.got d.tag := by
    rw [hgot, hslot, hst, if_neg (by decide)]
  refine h.touching hstep hwas rfl rfl hwf hfresh.2 hfresh.1 (fun _ _ => rfl) (fun u hu => ?_) hlt
    (fun hx => by cases hb.symm.trans hx) ?_ ⟨hwin.samePlace hstep.steady.samePlace, ?_⟩ hstream
  · show some d.tag = some u ↔ w.conn.active = some u
    rw [hactive]
    simp [Ne.symm hu]
  · exact .of_note hslot hgot' (hans.trans (List.append_nil _)) (fun hn => absurd hact' hn)
      (fun _ => hst) ((h.slots d.tag hlt).answers.open_ hold (by rw [hst]; decide))
  · show ∃ pdu, DataOk w.conn.dataDigest l' _ (c'.slot d.tag) _ d _ pdu ∧ _
    rw [hgot', hcur, hslot, hpay]
    refine ⟨pdu, hdata, fun hr b off len hd => hhere hr b off len ?_⟩
    rw [← hslot]
    exact hd

theorem Inv.header_payload {l' : Link} (h : Inv w p) (hc : w.conn.pc = .inner win)
    (hd : Headed w win pdu hdr dec n)
    (ho : Opened w.conn.dataDigest w.conn.link p (win.drop n) (w.got d.tag) ⟨hdr, [], []⟩ pdu l' d) :
    Inv (w.note .round { w.conn with
        decoder := dec, link := l', phase := .data d, pc := .inner (win.drop n) }
      ((w.conn.link.bytesOf win).take n)) p := by
  obtain ⟨s, hstep, -, -, -, -, hdata, hhere⟩ := ho.step
  have hold : (w.conn.slot d.tag).state = .receiving := ho.state
  refine h.opens (Conn.stopped_inner hc) hd.phase hd.wf hd.fresh ho.lt (by rw [hold]; decide) hstep
    (hd.taken ▸ hdata) (congrArg Pdu.payload hd.taken) hhere ((h.inner_ok hc).1.drop h.link hd.le)
    (Watched.inner_stream hc p n)

end

/-! ## Payload and digest -/

def Pc.At (l : Link) : Pc → Prop
  | .fill => ∀ m, l.reader = .ring m → m.cur = none
  | .inner win => WindowOk l win
  | _ => False

def Pc.here (p : Pos) : Pc → Nat → Nat → Prop
  | .fill, b, o => p = .mid b o
  | .inner win, b, o => ∃ n, win = .ring b o n
  | _, _, _ => False

theorem PcOk.of_at (hat : w.conn.pc.At w.conn.link) (hph : PhaseOk w (w.conn.pc.here p)) :
    PcOk w p := by
  unfold PcOk
  cases hc : w.conn.pc with
  | fill => rw [hc] at hat hph; exact ⟨hat, hph⟩
  | inner win => rw [hc] at hat hph; exact ⟨hat, hph⟩
  | _ => rw [hc] at hat; exact hat.elim

theorem Pc.At.stopped (h : c.pc.At l) : c.stopped = false := by
  unfold Conn.stopped
  cases hc : c.pc <;> first | rfl | (rw [hc] at h; exact h.elim)

theorem Pc.At.between (h : c.pc.At l) (hp : c.phase = .header) (h0 : c.decoder.have_ = 0) :
    c.between = true := by
  unfold Conn.between
  cases hc : c.pc <;> first | (simp only [hp, h0]; rfl) | (rw [hc] at h; exact h.elim)

section
variable {t : Nat} {s : Slot Sqe} {ws : List SendWork} {q : NvmeTcpQueue} {pc' : Pc}

theorem Inv.fresh_active (h : Inv w p) (hact : w.conn.active = some t) :
    w.conn.decoder.have_ = 0 := by
  refine h.fresh (.inl fun hp => ?_)
  rw [Conn.active, hp] at hact
  cases hact

theorem Inv.accepted (h : Inv w p) (hwas : w.conn.stopped = false) (hact : w.conn.active = some t)
    (htouch : Touched w.conn.link.queue q t s ws)
    (hregion : SameRegion s (w.conn.slot t))
    (hquiet : ∀ u, u ≠ t → completionsFor u ws = [])
    (hne : w.conn.taking w.cur bs ≠ .empty)
    (hframed : Framed w.conn.dataDigest (w.conn.taking w.cur bs)) (hs : s.state ≠ .free)
    (hok : SlotOk { w.conn.link with queue := q } t (w.got t ++ [w.conn.taking w.cur bs]) s)
    (hans : AnswerOk w.conn.dataDigest t (w.got t ++ [w.conn.taking w.cur bs])
      (completionsFor t ws) s)
    (hat : pc'.At w.conn.link)
    (hstream : bs ++ (pc'.unread w.conn.link ++ w.conn.link.reader.unread p)
      = w.unread p ++ a.received) :
    Inv (w.note a { w.conn with
      link := { w.conn.link with queue := q }, phase := .header, pc := pc' } bs) p := by
  let c' : Conn :=
    { w.conn with link := { w.conn.link with queue := q }, phase := .header, pc := pc' }
  have hstep : LinkStep w.conn.link c'.link p t s ws := htouch.linkStep h.link hregion
  have h0 := h.fresh_active hact
  have hb : c'.between = true := Pc.At.between (c := c') hat rfl h0
  have hold := h.slots t (h.active t hact)
  obtain ⟨hslot, hans'⟩ := w.note_touched a c' bs hstep
  obtain ⟨hcur, -, hgot⟩ := w.note_finished a c' bs hb hne
  rw [if_neg hs, hold.answers.none (by rw [hold.active hact]; decide), List.nil_append] at hans'
  refine h.touching hstep hwas (Pc.At.stopped (c := c') hat) rfl h.decoder h.open_ h0 hquiet
    (fun u hu => ?_) (h.active t hact) (fun _ => hframed) ?_
    (PcOk.of_at (w := w.note a c' bs) hat ?_) hstream
  · show (none : Option Nat) = some u ↔ w.conn.active = some u
    rw [hact]
    simp [Ne.symm hu]
  · refine .of_note hslot ?_ hans' (fun _ => hok) (fun hx => nomatch hx) hans
    rw [hgot, hslot, if_neg hs, if_pos hact]
  · show (w.note a c' bs).cur = ⟨w.conn.decoder.held, [], []⟩
    rw [hcur, List.length_eq_zero_iff.1 ((PduDecoder.held_length h.decoder).trans h0)]
    rfl

theorem Inv.goesOn {phase : RecvPhase} (h : Inv w p) (hwas : w.conn.stopped = false)
    (hact : w.conn.active = some t) (htouch : Touched w.conn.link.queue q t s [])
    (hregion : SameRegion s (w.conn.slot t)) (hs : s.state = .receiving)
    (hact' : ({ w.conn with phase } : Conn).active = some t)
    (hover : ({ w.conn with pc := pc' } : Conn).stopped = false)
    (hpc : ∀ w' : Watched, w'.conn = { w.conn with
        link := { w.conn.link with queue := q }, phase, pc := pc' } →
      w'.cur = w.conn.taking w.cur bs → w'.got t = w.got t → w'.conn.slot t = s → PcOk w' p)
    (hstream : bs ++ (pc'.unread w.conn.link ++ w.conn.link.reader.unread p)
      = w.unread p ++ a.received) :
    Inv (w.note a { w.conn with link := { w.conn.link with queue := q }, phase, pc := pc' } bs) p := by
  let c' : Conn := { w.conn with link := { w.conn.link with queue := q }, phase, pc := pc' }
  have hstep : LinkStep w.conn.link c'.link p t s [] := htouch.linkStep h.link hregion
  have hactive : c'.active = some t := hact'
  have hb : c'.between = false := Conn.between_active hactive
  have hold := h.slots t (h.active t hact)
  obtain ⟨hslot, hans⟩ := w.note_touched a c' bs hstep
  obtain ⟨hcur, -, hgot⟩ := w.note_unfinished a c' bs (.inl hb)
  rw [hs, if_neg (by decide)] at hans
  have hgot' : (w.note a c' bs).got t = w.got t := by
    rw [hgot, hslot, hs, if_neg (by decide)]
  refine h.touching hstep hwas hover rfl h.decoder h.open_ (h.fresh_active hact) (fun _ _ => rfl)
    (fun u _ => by rw [hactive, hact]) (h.active t hact) (fun hx => nomatch hb.symm.trans hx) ?_
    (hpc _ rfl hcur hgot' hslot) hstream
  exact .of_note hslot hgot' (hans.trans (List.append_nil _)) (fun hn => absurd hactive hn)
    (fun _ => hs) (hold.answers.open_ (by rw [hold.active hact]; decide) (by rw [hs]; decide))

theorem Inv.phaseStep {phase : RecvPhase} {kind : PayloadKind} (h : Inv w p)
    (hwas : w.conn.stopped = false)
    (hact : w.conn.active = some t)
    (hstep : PhaseStep w.conn.dataDigest w.conn.link t kind (w.got t) (w.conn.taking w.cur bs) q phase
      s)
    (hne : w.conn.taking w.cur bs ≠ .empty)
    (hhere : ∀ d, phase = .data d → d.retained = true → ∀ b off len,
      (w.conn.slot t).data = .ring b off len →
        pc'.here p b (off + (w.conn.taking w.cur bs).payload.length))
    (hat : pc'.At w.conn.link)
    (hstream : bs ++ (pc'.unread w.conn.link ++ w.conn.link.reader.unread p)
      = w.unread p ++ a.received) :
    Inv (w.note a { w.conn with link := { w.conn.link with queue := q }, phase, pc := pc' } bs) p := by
  have hold := h.slots t (h.active t hact)
  have hrecv := hold.active hact
  have hover : ({ w.conn with pc := pc' } : Conn).stopped = false :=
    Pc.At.stopped (c := { w.conn with pc := pc' }) hat
  cases hstep.moved with
  | @data d pdu tag _ ok _ held =>
    subst tag
    refine h.goesOn hwas hact hstep.touched hstep.region ok.fill.state rfl hover ?_ hstream
    intro w' hconn hcur hgot hslot
    refine PcOk.of_at (by rw [hconn]; exact hat) ?_
    rw [hconn]
    unfold PhaseOk
    rw [hconn]
    dsimp only
    rw [hconn] at hslot
    rw [hcur, hgot, hslot]
    refine ⟨pdu, ok, fun hr b off len hd => hhere d rfl hr b off len ?_⟩
    rw [← hd, held hr]
    rfl
  | @ddgst g base pdu tag _ ok _ =>
    subst tag
    refine h.goesOn hwas hact hstep.touched hstep.region ok.fill.state rfl hover ?_ hstream
    intro w' hconn hcur hgot hslot
    refine PcOk.of_at (by rw [hconn]; exact hat) ?_
    rw [hconn]
    unfold PhaseOk
    rw [hconn]
    dsimp only
    rw [hconn] at hslot
    rw [hcur, hgot, hslot]
    exact ⟨base, pdu, ok⟩
  | done hst ok fr ver _ =>
    have hnr : s.state ≠ .responding := by rcases hst with hst | hst <;> rw [hst] <;> decide
    refine h.accepted hwas hact hstep.touched hstep.region (fun _ _ => rfl) hne fr
      (by rcases hst with hst | hst <;> rw [hst] <;> decide) ok ?_ hat hstream
    refine ⟨fun _ => rfl, fun hx => absurd hx hnr, fun hd r hr hm => ?_⟩
    rw [List.mem_append, List.mem_singleton] at hr
    rcases hr with hr | rfl
    · have := (hold.answers.mismatch hd r hr hm).1
      rw [hrecv] at this
      cases this
    · exact absurd hm (ver hd)

end

section
variable {win : Window}

theorem Conn.payload_active {t : Nat} {kind : PayloadKind} (h : c.payload = some (t, kind)) :
    c.active = some t := by
  unfold Conn.payload at h
  unfold Conn.active
  cases hp : c.phase <;> simp only [hp] at h ⊢ <;> cases h <;> rfl

theorem Watched.taking_ne (h : HeaderOf w.cur.hdr pdu) (bs : List UInt8) :
    w.conn.taking w.cur bs ≠ .empty := by
  intro he
  have hlen : 24 ≤ (w.conn.taking w.cur bs).hdr.length := by
    unfold Conn.taking
    have := h.long
    cases w.conn.phase <;> simp <;> omega
  rw [he] at hlen
  exact absurd hlen (by decide)

/-- In a retained payload the window's bytes are in place already. -/
theorem DataOk.arrived_window {ps : List Pdu} {dd : Bool} {cur : Pdu} {n : Nat}
    (h : DataOk dd l ps s cur d cur.payload.length pdu) (hl : LinkOk l p) (hwin : WindowOk l win)
    (hr : d.retained = true)
    (hh : ∀ b off len, s.data = .ring b off len → ∃ k, win = .ring b (off + cur.payload.length) k)
    (hn : n ≤ d.remaining) (hnl : n ≤ (l.bytesOf win).length) :
    Arrived l s.data (payloads ps ++ (cur.payload ++ (l.bytesOf win).take n)) := by
  obtain ⟨b, off, hd, -, hbase⟩ : ∃ b off, s.data = .ring b off pdu.dataLen ∧
      s.dataLen = pdu.dataLen ∧ d.base = 0 := by
    rcases h.fill.buffer with ⟨segs, hd, -⟩ | hx
    · obtain ⟨b, off, k, hd', -⟩ := h.retained hr
      rw [hd] at hd'
      cases hd'
    · exact hx
  obtain ⟨k, rfl⟩ := hh b off _ hd
  have hnil : payloads ps = [] :=
    List.length_eq_zero_iff.1 (h.fill.start.symm.trans hbase)
  have harr := h.fill.arrived
  have hcount := h.count
  have hk := hwin.length hl
  rw [hk] at hnl
  rw [hnil, hd] at harr ⊢
  rw [List.nil_append] at harr ⊢
  unfold WindowOk at hwin
  cases hrd : l.reader with
  | classic => simp [hrd] at hwin
  | ring m =>
    simp only [hrd] at hwin
    obtain ⟨c, hc, rfl, hle, hsum⟩ := hwin
    have hbytes : (l.bytesOf (.ring c.bid (off + cur.payload.length) k)).take n
        = slice (m.ring.bufs c.bid).mem (off + cur.payload.length) n := by
      unfold Link.bytesOf
      simp only [hrd]
      rw [slice_take_min, Nat.min_eq_left hnl]
    have hxlen : ((l.bytesOf (.ring c.bid (off + cur.payload.length) k)).take n).length = n := by
      rw [List.length_take, hk, Nat.min_eq_left hnl]
    refine ⟨?_, ?_⟩
    · have hold := harr.bytes
      unfold Link.dataOf at hold ⊢
      unfold Link.bytesOf at hold
      simp only [hrd] at hold
      rw [slice_take_min, Nat.min_eq_left (by omega)] at hold
      rw [List.length_append, hxlen, hbytes]
      unfold Link.bytesOf
      simp only [hrd]
      rw [slice_take_min, Nat.min_eq_left (by omega), slice_add, hold]
    · rintro m' b' off' len' hm' hd'
      cases hd'
      rw [hrd] at hm'
      cases hm'
      refine ((hl.ring m hrd).1.cur_settled hc).mono ?_
      rw [List.length_append, hxlen]
      omega

/-! ## Rounds -/

/-- What a round of the inner loop did with the first `n` bytes of its window. -/
inductive Rounded (w : Watched) (p : Pos) (win : Window) : Conn → Nat → Prop
  | more (dec : PduDecoder) (n : Nat) (phase : w.conn.phase = .header)
      (fed : w.conn.decoder.Fed (w.conn.link.bytesOf win) dec n) (open_ : dec.state ≠ .complete) :
      Rounded w p win { w.conn with decoder := dec, pc := .inner (win.drop n) } n
  | capsule (sqe : Sqe) (pdu : DecodedPdu) (hdr : List UInt8) (dec : PduDecoder) (n : Nat)
      (head : Headed w win pdu hdr dec n) (kind : pdu.kind = .capsuleCmd sqe) :
      Rounded w p win { w.conn with
        decoder := dec
        pc := .awaitTag (win.drop n) sqe pdu.dataLen (pdu.ddgst && w.conn.dataDigest) } n
  | opened (cid offset length : Nat) (last : Bool) (pdu : DecodedPdu) (hdr : List UInt8)
      (dec : PduDecoder) (n : Nat) (l' : Link) (d : DataPhase) (head : Headed w win pdu hdr dec n)
      (kind : pdu.kind = .h2cData cid d.tag offset length last) (same : d.kind = .h2c last length)
      (ok : Opened w.conn.dataDigest w.conn.link p (win.drop n) (w.got d.tag) ⟨hdr, [], []⟩ pdu l' d) :
      Rounded w p win { w.conn with
        decoder := dec, link := l', phase := .data d, pc := .inner (win.drop n) } n
  | went (t : Nat) (kind : PayloadKind) (q : NvmeTcpQueue) (phase : RecvPhase) (s : Slot Sqe) (n : Nat)
      (pay : w.conn.payload = some (t, kind)) (le : n ≤ (w.conn.link.bytesOf win).length)
      (ne : w.taken win n ≠ .empty)
      (step : PhaseStep w.conn.dataDigest w.conn.link t kind (w.got t) (w.taken win n) q phase s)
      (here : ∀ d, phase = .data d → d.retained = true → ∀ b off len,
        (w.conn.slot t).data = .ring b off len →
          ∃ k, win.drop n = .ring b (off + (w.taken win n).payload.length) k) :
      Rounded w p win { w.conn with
        link := { w.conn.link with queue := q }, phase, pc := .inner (win.drop n) } n
  | mismatch (g : DdgstPhase) (q : NvmeTcpQueue) (n : Nat) (phase : w.conn.phase = .ddgst g)
      (le : n ≤ (w.conn.link.bytesOf win).length) (ne : w.taken win n ≠ .empty)
      (failed : Failed w.conn.dataDigest w.conn.link g.tag (w.taken win n) q)
      (wrong : g.wrong (w.conn.link.bytesOf win) = true) :
      Rounded w p win { w.conn with
        link := { w.conn.link with queue := q }, phase := .header, pc := .inner (win.drop n) } n

/-- The queue ends the connection with `e` over the header of `pdu`. -/
def Refuses (q : NvmeTcpQueue) (pdu : DecodedPdu) (e : RecvEnd) : Prop :=
  match pdu.kind with
  | .capsuleCmd _ => False
  | .h2cData cid ttag offset length _ => validateH2c q cid ttag offset length pdu.dataLen ≠ .ok ttag
  | .h2cTerm fes fei => e = .hostTerm fes fei
  | _ => True

/-- Why a round ends the connection with `e`. -/
inductive Conn.Fails (c : Conn) (win : Window) (e : RecvEnd) : Prop
  | decoder (phase : c.phase = .header) (h : ∀ next, c.incoming win ≠ .ok next)
  | header (phase : c.phase = .header) (pdu : DecodedPdu) (next : c.incoming win = .ok (some pdu))
      (h : Refuses c.link.queue pdu e)
  | short (t : Nat) (kind : PayloadKind) (pay : c.payload = some (t, kind))
      (h : Short (c.slot t) kind)

/-- A round came to `x`: it ends the connection, or consumes bytes of its window. -/
def RoundOk (w : Watched) (p : Pos) (win : Window) (x : Checked RecvEnd (Conn × Nat)) : Prop :=
  (∃ e, x = .error (.err e) ∧ w.conn.Fails win e) ∨ ∃ c' n, x = .ok (c', n) ∧ Rounded w p win c' n

theorem feedHeader_spec (h : Inv w p) (hc : w.conn.pc = .inner win) (hp : w.conn.phase = .header) :
    RoundOk w p win (w.conn.feedHeader win) := by
  unfold Conn.feedHeader
  cases hfeed : w.conn.decoder.feed (w.conn.link.bytesOf win) with
  | error f =>
    cases f with
    | err e =>
      exact .inl ⟨_, rfl, .decoder hp fun next hx => by rw [Conn.incoming, hfeed] at hx; cases hx⟩
    | panic q => exact absurd hfeed (PduDecoder.feed_safe h.decoder h.open_ _ q)
  | ok r =>
  obtain ⟨dec, n⟩ := r
  have hf := h.decoder.feed h.open_ hfeed
  rw [Checked.mapErr_ok, Checked.bind_ok]
  dsimp only
  cases hcomp : dec.isComplete with
  | false =>
    refine .inr ⟨_, _, rfl, .more dec n hp hf ?_⟩
    simpa [PduDecoder.isComplete] using hcomp
  | true =>
  have hcomp' : dec.state = .complete := by simpa [PduDecoder.isComplete] using hcomp
  have hin : w.conn.incoming win = dec.take >>= fun r => .ok (some r.1) := by
    simp only [Conn.incoming, hfeed, Checked.bind_ok, hcomp, ↓reduceIte]
    rfl
  rw [if_neg (by simp)]
  cases htake : dec.take with
  | error f =>
    cases f with
    | err e => exact .inl ⟨_, rfl, .decoder hp fun next hx => by rw [hin, htake] at hx; cases hx⟩
    | panic q => exact absurd htake (PduDecoder.take_safe hf.wf hcomp' q)
  | ok r =>
  obtain ⟨pdu, dec'⟩ := r
  have ht := hf.wf.take hcomp' htake
  have hhdr := hf.wf.headerOf hcomp' htake
  rw [htake] at hin
  rw [Checked.mapErr_ok, Checked.bind_ok]
  have hd : Headed w win pdu dec.held dec' n :=
    ⟨hp, hin, hf.le, h.taking_header hc hp hf, hhdr, ht.wf, ht.fresh⟩
  dsimp only
  cases hk : pdu.kind with
  | capsuleCmd sqe =>
    refine .inr ⟨_, _, ?_, .capsule sqe pdu _ dec' n hd hk⟩
    unfold handlePdu
    rw [hk]
    rfl
  | h2cData cid ttag offset length last =>
    have hslot : ttag < w.conn.link.queue.slots.nslots →
        SlotOk w.conn.link ttag (w.got ttag) (w.conn.link.queue.slots.slots ttag) :=
      fun hlt => (h.slots ttag hlt).idle (by rw [Conn.active, hp]; simp)
    rcases handlePdu_h2c w.conn.dataDigest ⟨dec.held, [], []⟩ h.link
      ((h.inner_ok hc).1.drop h.link hf.le) hhdr rfl rfl hk hslot with
      ⟨e, he, hbad⟩ | ⟨l', d, hok, htag, hkd, ho⟩
    · refine .inl ⟨e, by rw [he]; rfl, .header hp pdu hin ?_⟩
      rw [Refuses, hk]
      exact hbad
    · subst htag
      exact .inr ⟨_, _, by rw [hok]; rfl, .opened _ _ _ _ pdu _ dec' n l' d hd hk hkd ho⟩
  | _ =>
    refine .inl ?_
    unfold handlePdu
    rw [hk]
    refine ⟨_, rfl, .header hp pdu hin ?_⟩
    simp [Refuses, hk]

theorem dataRound_spec (h : Inv w p) (hc : w.conn.pc = .inner win) (hp : w.conn.phase = .data d) :
    RoundOk w p win (w.conn.round win) := by
  obtain ⟨hwin, hph⟩ := h.inner_ok hc
  unfold PhaseOk at hph
  simp only [hp] at hph
  obtain ⟨pdu, hok, hhere⟩ := hph
  have hpay : w.conn.payload = some (d.tag, d.kind) := by rw [Conn.payload, hp]
  have hn : min d.remaining (w.conn.link.bytesOf win).length ≤ (w.conn.link.bytesOf win).length :=
    Nat.min_le_right _ _
  rw [Conn.round, hp]
  dsimp only
  rcases DataPhase.advance_spec h.link (h.active d.tag (Conn.payload_active hpay)) hok
    (fun hr => hok.arrived_window h.link hwin hr (hhere hr) (Nat.min_le_left _ _) hn) with
    ⟨e, he, hshort⟩ | ⟨q, phase, s, hadv, hstep⟩
  · exact .inl ⟨e, by rw [he]; rfl, .short _ _ hpay hshort⟩
  generalize hndef : min d.remaining (w.conn.link.bytesOf win).length = n at hadv hstep hn
  have htake : w.taken win n
      = { w.cur with payload := w.cur.payload ++ (w.conn.link.bytesOf win).take n } := by
    rw [Watched.taken, Conn.taking, hp]
  refine .inr ⟨_, n, by rw [hadv]; rfl, .went _ _ q phase s n hpay hn
    (Watched.taking_ne hok.fill.hdr _) (htake ▸ hstep) ?_⟩
  intro d' hd' hr' b off len hdata
  have hr : d.retained = true := by
    cases hrt : d.retained with
    | true => rfl
    | false =>
      obtain ⟨segs, hx⟩ := hok.copied hrt
      rw [hdata] at hx
      cases hx
  obtain ⟨k, rfl⟩ := hhere hr b off len hdata
  rw [htake]
  refine ⟨k - n, ?_⟩
  dsimp only
  rw [List.length_append, List.length_take, Nat.min_eq_left hn, ← Nat.add_assoc]
  rfl

theorem ddgstRound_spec {g : DdgstPhase} (h : Inv w p) (hc : w.conn.pc = .inner win)
    (hp : w.conn.phase = .ddgst g) : RoundOk w p win (w.conn.round win) := by
  obtain ⟨-, hph⟩ := h.inner_ok hc
  unfold PhaseOk at hph
  simp only [hp] at hph
  obtain ⟨base, pdu, hok⟩ := hph
  have hpay : w.conn.payload = some (g.tag, g.kind) := by rw [Conn.payload, hp]
  obtain ⟨n, hn, hcases⟩ := DdgstPhase.advance_spec h.link
    (h.active g.tag (Conn.payload_active hpay)) hok (w.conn.link.bytesOf win)
  have htake : w.taken win n
      = { w.cur with digest := w.cur.digest ++ (w.conn.link.bytesOf win).take n } := by
    rw [Watched.taken, Conn.taking, hp]
  have hne : w.taken win n ≠ .empty := Watched.taking_ne hok.fill.hdr _
  rw [← htake] at hcases
  rw [Conn.round, hp]
  dsimp only
  rcases hcases with ⟨e, he, hshort⟩ | ⟨q, phase, s, hadv, hstep, hnd⟩ | ⟨q, hadv, hfail, hwrong⟩
  · exact .inl ⟨e, by rw [he]; rfl, .short _ _ hpay hshort⟩
  · exact .inr ⟨_, n, by rw [hadv]; rfl, .went _ _ q phase s n hpay hn hne hstep
      fun d' hd' => absurd hd' (hnd d')⟩
  · exact .inr ⟨_, n, by rw [hadv]; rfl, .mismatch g q n hp hn hne hfail hwrong⟩

theorem round_spec (h : Inv w p) (hs : w.conn.step .round = some (c', bs)) :
    ∃ win, w.conn.pc = .inner win ∧ w.conn.link.bytesOf win ≠ [] ∧
      ((∃ e, w.conn.Fails win e ∧ c' = { w.conn with pc := .ended (some e) } ∧ bs = []) ∨
        ∃ n, bs = (w.conn.link.bytesOf win).take n ∧ Rounded w p win c' n) := by
  unfold Conn.step at hs
  dsimp only at hs
  split at hs
  swap
  · cases hs
  rename_i win hc
  split at hs
  · cases hs
  rename_i hne
  have key : RoundOk w p win (w.conn.round win) := by
    cases hp : w.conn.phase with
    | header =>
      rw [Conn.round, hp]
      exact feedHeader_spec h hc hp
    | data d => exact dataRound_spec h hc hp
    | ddgst g => exact ddgstRound_spec h hc hp
  refine ⟨win, hc, hne, ?_⟩
  rcases key with ⟨e, he, hf⟩ | ⟨c₁, n, hok, hr⟩
  · rw [he] at hs
    obtain ⟨rfl, rfl⟩ := Prod.mk.inj (Option.some.inj hs)
    exact .inl ⟨e, hf, rfl, rfl⟩
  · rw [hok] at hs
    obtain ⟨rfl, rfl⟩ := Prod.mk.inj (Option.some.inj hs)
    exact .inr ⟨n, rfl, hr⟩

theorem Inv.round (h : Inv w p) (hs : w.conn.step .round = some (c', bs)) :
    Inv (w.note .round c' bs) p := by
  obtain ⟨win, hc, hbytes, ⟨e, -, rfl, rfl⟩ | ⟨n, rfl, hr⟩⟩ := round_spec h hs
  · exact h.endLoop _ _ _ (.inl rfl)
  cases hr with
  | more dec n phase fed open_ => exact h.header_more hc phase hbytes fed open_
  | capsule sqe pdu hdr dec n head kind => exact h.header_capsule hc head kind
  | opened cid offset length last pdu hdr dec n l' d head kind same ok =>
    exact h.header_payload hc head ok
  | went t kind q phase s n pay le ne step here =>
    exact h.phaseStep (Conn.stopped_inner hc) (Conn.payload_active pay) step ne here
      ((h.inner_ok hc).1.drop h.link le) (Watched.inner_stream hc p n)
  | mismatch g q n phase le ne failed wrong =>
    obtain ⟨c, htouch, htag, hlen, hcid, hstatus⟩ := failed.touched
    refine h.accepted (Conn.stopped_inner hc) (by rw [Conn.active, phase]) htouch (.of_data rfl)
      ?_ ne failed.framed (by simp) (.busy (.inr rfl)) ?_ ((h.inner_ok hc).1.drop h.link le)
      (Watched.inner_stream hc p n)
    · intro u hu
      simp [completionsFor, htag, Ne.symm hu]
    · have hone : completionsFor g.tag [.response c] = [c] := by simp [completionsFor, htag]
      rw [hone]
      exact ⟨fun hx => absurd rfl hx, fun _ => ⟨c, rfl, htag, hcid⟩,
        fun _ _ _ _ => ⟨rfl, c, rfl, hstatus, hlen⟩⟩

end

end Ioutgt.Tcp
