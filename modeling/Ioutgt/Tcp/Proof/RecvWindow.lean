import Ioutgt.Tcp.Proof.RecvBeside

/-!
# Windows come and go

The receive loop takes a window, leaves an empty one, or ends.

* `Inv.recv`, `Inv.observe`: a new window, from the scratch buffer or the ring.
* `Inv.drained`: an empty window is given up; a large tail switches to the direct path.
* `Inv.endLoop`: the loop returns.
-/

namespace Ioutgt.Tcp

open Lib Ioutgt.Core Ioutgt.Nvme Ioutgt.Uring

variable {w : Watched} {p : Pos} {c' : Conn} {bs : List UInt8} {win : Window}

/-- The loop returns; it may have consumed some of the unread bytes before. -/
theorem Inv.endLoop (h : Inv w p) (a : Action) (e : Option RecvEnd) (bs : List UInt8)
    (hbs : bs = [] ∨ w.conn.stopped = false ∧ bs <+: w.unread p ++ a.received) :
    Inv (w.note a { w.conn with pc := .ended e } bs) p := by
  have hb : ({ w.conn with pc := .ended e } : Conn).between = false := by
    unfold Conn.between
    cases w.conn.phase <;> rfl
  obtain ⟨hcur, -, -⟩ := w.note_unfinished a _ bs (.inl hb)
  have hstream := h.note_stream a { w.conn with pc := .ended e } bs p (fun ho => by cases ho) hbs
  exact
    { link := h.link
      decoder := h.decoder
      open_ := h.open_
      fresh := by
        rintro (hp | ⟨_, _, _, _, hpc⟩)
        · exact h.fresh (.inl hp)
        · cases hpc
      slots := h.slots_same { w.conn with pc := .ended e } rfl rfl rfl rfl
        fun _ _ b _ => .of_reader rfl b
      active := h.active
      parts := h.parts.taking bs rfl hcur
      pc := trivial
      done := h.note_done a rfl fun ht => absurd ht (by rw [hb]; decide)
      stream := hstream.1
      seen := hstream.2 }

theorem PhaseOk.classic {here here' : Nat → Nat → Prop} (h : PhaseOk w here) (hl : LinkOk w.conn.link p)
    (hr : w.conn.link.reader = .classic)
    (hact : ∀ t, w.conn.active = some t → t < w.conn.link.queue.slots.nslots) :
    PhaseOk w here' := by
  unfold PhaseOk at *
  cases hp : w.conn.phase with
  | header => simpa only [hp] using h
  | data d =>
    simp only [hp] at h ⊢
    obtain ⟨pdu, hok, -⟩ := h
    refine ⟨pdu, hok, fun _ b off len hd => ?_⟩
    have hno := hl.classic hr d.tag (hact d.tag (by rw [Conn.active, hp])) b
    cases hno.symm.trans (borrows_eq_true.2 ⟨off, len, hd⟩)
  | ddgst g => simpa only [hp] using h

theorem Conn.between_inner {c : Conn} (hc : c.pc = .fill) (win : Window) :
    ({ c with pc := .inner win } : Conn).between = c.between := by
  unfold Conn.between
  rw [hc]
  cases c.phase <;> rfl

theorem Inv.recv {xs : List UInt8} (h : Inv w p) (hs : w.conn.step (.recv xs) = some (c', bs)) :
    Inv (w.note (.recv xs) c' bs) p := by
  unfold Conn.step at hs
  dsimp only at hs
  split at hs
  swap
  · cases hs
  rename_i hc hr
  obtain ⟨-, hs⟩ := of_guard hs
  obtain ⟨rfl, rfl⟩ := Prod.mk.inj hs
  refine h.idle _ _ rfl rfl rfl h.link (.refl _) rfl ?_ (fun _ _ => ⟨rfl, fun b _ => .of_reader rfl b⟩)
    (fun hb => by rwa [Conn.between_inner hc] at hb) ?_ (fun _ => ⟨?_, ?_⟩) fun hb => ?_
  · exact h.slots_same { w.conn with pc := .inner (.scratch xs) } rfl rfl rfl rfl
      fun _ _ b _ => .of_reader rfl b
  · rintro ⟨_, _, _, _, hx⟩
    cases hx
  · unfold Conn.stopped
    rw [hc]
  · show xs ++ w.conn.link.reader.unread p
      = w.conn.pc.unread w.conn.link ++ w.conn.link.reader.unread p ++ xs
    rw [hc, hr]
    simp [Pc.unread, Reader.unread]
  · refine ⟨?_, ((h.fill_ok hc).classic h.link hr h.active).beside hb fun _ _ hh => hh⟩
    show WindowOk w.conn.link (.scratch xs)
    unfold WindowOk
    rw [hr]
    trivial

def Watched.nextPos (w : Watched) (p : Pos) (a : Action) : Pos :=
  match a, w.conn.link.reader with
  | .observe, .ring m =>
    match m.ring.cqes with
    | c :: _ => p.next c
    | [] => p
  | _, _ => p

theorem Inv.observe (h : Inv w p) (hs : w.conn.step .observe = some (c', bs)) :
    Inv (w.note .observe c' bs) (w.nextPos p .observe) := by
  unfold Conn.step at hs
  dsimp only at hs
  split at hs
  swap
  · cases hs
  rename_i m hc hr
  obtain ⟨m', hobs, hs⟩ := Option.bind_eq_some_iff.1 hs
  obtain ⟨c, hcq, hfit, hcur, hok', hsize, hbufs, hkeepAt⟩ := (h.link.ring m hr).1.observe hobs
  rw [hcur, Option.map_some] at hs
  obtain ⟨rfl, rfl⟩ := Prod.mk.inj (Option.some.inj hs)
  let l' : Link := { w.conn.link with reader := .ring m' }
  have hkeep : ∀ b, w.conn.link.Keeps l' b := by
    intro b
    rw [Link.Keeps, hr]
    exact .ring (hkeepAt b)
  let c' : Conn := { w.conn with link := l', pc := .inner (.ring c.bid p.off c.len) }
  have hbetween : c'.between = w.conn.between := by
    rw [← Conn.between_inner hc (.ring c.bid p.off c.len)]
    rfl
  rw [show w.nextPos p .observe = p.next c by simp only [Watched.nextPos, hr, hcq]]
  show Inv (w.note .observe c' []) (p.next c)
  refine h.idle _ _ rfl rfl rfl (h.link.of_ring hr hok' fun b => (hbufs b).2) ?_ rfl ?_
    (fun _ _ => ⟨rfl, fun b _ => hkeep b⟩) (fun hb => by rwa [hbetween] at hb) ?_
    (fun _ => ⟨?_, ?_⟩) fun hb => ?_
  · rw [Link.SameSize, hr]
    exact .ring hsize
  · exact h.slots_same c' rfl rfl rfl rfl fun _ _ b _ => hkeep b
  · rintro ⟨_, _, _, _, hx⟩
    cases hx
  · unfold Conn.stopped
    rw [hc]
  · show slice (m'.ring.bufs c.bid).mem p.off c.len ++ m'.ring.content (p.next c) m'.ring.cqes
      = w.conn.pc.unread w.conn.link ++ w.conn.link.reader.unread p ++ []
    rw [hc, hr, List.append_nil, (hbufs _).1, content_mem fun b => (hbufs b).1]
    show _ = m.ring.content p m.ring.cqes
    rw [hcq]
    rfl
  · refine ⟨⟨_, hcur, rfl, Nat.le_refl _, rfl⟩, (h.fill_ok hc).beside hb fun b o hh => ?_⟩
    subst hh
    exact ⟨c.len, by rw [hfit.bid b o rfl]; rfl⟩

theorem Inv.recvEnd {e : Option RecvEnd} (h : Inv w p)
    (hs : w.conn.step (.recvEnd e) = some (c', bs)) : Inv (w.note (.recvEnd e) c' bs) p := by
  unfold Conn.step at hs
  dsimp only at hs
  split at hs
  · split at hs
    · obtain ⟨rfl, rfl⟩ := Prod.mk.inj (Option.some.inj hs)
      exact h.endLoop _ e [] (.inl rfl)
    · cases hs
  · split at hs
    · obtain ⟨rfl, rfl⟩ := Prod.mk.inj (Option.some.inj hs)
      exact h.endLoop _ e [] (.inl rfl)
    · cases hs
  · cases hs

/-! ## Leaving a window -/

theorem drained_here {m : RingMode} (h : Inv w p) (hc : w.conn.pc = .inner win)
    (hr : w.conn.link.reader = .ring m) (hempty : w.conn.link.bytesOf win = []) {d : DataPhase}
    {pdu : DecodedPdu} {b off len : Nat}
    (hok : DataOk w.conn.dataDigest w.conn.link (w.got d.tag) (w.conn.slot d.tag) w.cur d
      w.cur.payload.length pdu)
    (hret : d.retained = true) (hd : (w.conn.slot d.tag).data = .ring b off len)
    (hh : ∃ n, win = .ring b (off + w.cur.payload.length) n) :
    p = .mid b (off + w.cur.payload.length) := by
  obtain ⟨n, rfl⟩ := hh
  have hwin := (h.inner_ok hc).1
  have hn : n = 0 := by
    have := hwin.length h.link
    rw [hempty] at this
    exact this.symm
  unfold WindowOk at hwin
  simp only [hr] at hwin
  obtain ⟨c, hcur, rfl, hle, hsum⟩ := hwin
  obtain ⟨b', off', n', hd', hbound⟩ := hok.retained hret
  rw [hd] at hd'
  cases hd'
  have hcurOk := (h.link.ring m hr).1.cur c hcur
  have hcount := hok.count
  have hpos := hok.pos
  have hfit := hbound m hr
  cases hm : c.bufMore with
  | true =>
    rw [(hcurOk.more hm).1]
    congr 1
    omega
  | false =>
    have := (hcurOk.full hm).2
    omega

theorem Conn.between_leave {c c' : Conn} (hc : c.pc = .inner win) (hp : c'.phase = c.phase)
    (hd : c'.decoder = c.decoder) (hb : c'.between = true) : c.between = true := by
  unfold Conn.between at hb ⊢
  rw [hp, hd] at hb
  rw [hc]
  cases hph : c.phase with
  | header =>
    simp only [hph] at hb ⊢
    split at hb <;> simp_all
  | data d => simp [hph] at hb
  | ddgst g => simp [hph] at hb

theorem Inv.drained_ring {m : RingMode} (h : Inv w p) (hc : w.conn.pc = .inner win)
    (hempty : w.conn.link.bytesOf win = []) (hr : w.conn.link.reader = .ring m) :
    Inv (w.note .drained (w.conn.settle w.conn.drained) []) p := by
  obtain ⟨m', hret, hok', hcur, hsteady, -, hpend'⟩ := (h.link.ring m hr).1.retire RecvEnd
  let l' : Link := { w.conn.link with reader := .ring m' }
  let c' : Conn := { w.conn with link := l', pc := .fill }
  have heq : w.conn.settle w.conn.drained = c' := by
    unfold Conn.drained
    rw [hr]
    dsimp only
    rw [hret]
    rfl
  have hkeep : ∀ t < w.conn.link.queue.slots.nslots, ∀ b, borrows b (w.conn.slot t) = true →
      w.conn.link.Keeps l' b := by
    intro t ht b hb
    rw [Link.Keeps, hr]
    refine .ring (hsteady.keepsAt ?_)
    rw [hpend']
    exact h.link.pending_pos hr ht hb
  have hphase : PhaseOk w fun b o => p = .mid b o := by
    have hin := (h.inner_ok hc).2
    unfold PhaseOk at hin ⊢
    cases hp : w.conn.phase with
    | header => simpa only [hp] using hin
    | ddgst g => simpa only [hp] using hin
    | data d =>
      simp only [hp] at hin ⊢
      obtain ⟨pdu, hdata, hh⟩ := hin
      exact ⟨pdu, hdata, fun hrt b off len hd =>
        drained_here h hc hr hempty hdata hrt hd (hh hrt b off len hd)⟩
  rw [heq]
  refine h.idle _ _ rfl rfl rfl (h.link.of_ring hr hok' hpend') ?_ rfl ?_
    (fun t ht => ⟨rfl, hkeep t (h.active t ht)⟩) (Conn.between_leave hc rfl rfl) ?_
    (fun _ => ⟨?_, ?_⟩) fun hb => ⟨fun m'' hm => ?_, hphase.beside hb fun _ _ hh => hh⟩
  · rw [Link.SameSize, hr]
    exact .ring hsteady.bufSize
  · exact h.slots_same c' rfl rfl rfl rfl hkeep
  · rintro ⟨_, _, _, _, hx⟩
    cases hx
  · unfold Conn.stopped
    rw [hc]
  · show m'.ring.content p m'.ring.cqes
      = w.conn.pc.unread w.conn.link ++ w.conn.link.reader.unread p ++ []
    rw [hc, hr, Pc.unread, hempty, List.append_nil, List.nil_append]
    exact hsteady.content p
  · obtain rfl := Reader.ring.inj hm
    exact hcur

theorem Inv.leave_classic (h : Inv w p) (hc : w.conn.pc = .inner win)
    (hempty : w.conn.link.bytesOf win = []) {pc' : Pc} (hun : pc'.unread w.conn.link = [])
    (hna : ∀ win sqe n d, pc' ≠ .awaitTag win sqe n d)
    (hpc : ∀ w' : Watched, Beside w w' → w'.conn.link = w.conn.link → w'.conn.pc = pc' → PcOk w' p) :
    Inv (w.note .drained { w.conn with pc := pc' } []) p := by
  refine h.idle _ _ rfl rfl rfl h.link (.refl _) rfl ?_ (fun _ _ => ⟨rfl, fun b _ => .of_reader rfl b⟩)
    (Conn.between_leave hc rfl rfl) ?_ (fun _ => ⟨?_, ?_⟩) fun hb => hpc _ hb rfl rfl
  · exact h.slots_same { w.conn with pc := pc' } rfl rfl rfl rfl fun _ _ b _ => .of_reader rfl b
  · rintro ⟨win', sqe, n, d, hx⟩
    exact absurd hx (hna win' sqe n d)
  · unfold Conn.stopped
    rw [hc]
  · show pc'.unread w.conn.link ++ w.conn.link.reader.unread p
      = w.conn.pc.unread w.conn.link ++ w.conn.link.reader.unread p ++ []
    rw [hun, hc, Pc.unread, hempty, List.append_nil]

theorem startDirect_spec {d : DataPhase} (h : Inv w p) (hc : w.conn.pc = .inner win)
    (hr : w.conn.link.reader = .classic) (hp : w.conn.phase = .data d) :
    ∃ pdu segs subs, w.conn.startDirect d = .ok { w.conn with pc := .direct d subs subs } ∧
      DataOk w.conn.dataDigest w.conn.link (w.got d.tag) (w.conn.slot d.tag) w.cur d
        w.cur.payload.length pdu ∧ (w.conn.slot d.tag).data = .leased segs ∧
      Covers (segs.map List.length) subs (d.base + w.cur.payload.length) d.remaining := by
  have hph := (h.inner_ok hc).2
  unfold PhaseOk at hph
  simp only [hp] at hph
  obtain ⟨pdu, hok, -⟩ := hph
  have ht : d.tag < w.conn.link.queue.slots.nslots := h.active d.tag (by rw [Conn.active, hp])
  have hret : d.retained = false := by
    cases hrt : d.retained with
    | false => rfl
    | true =>
      obtain ⟨b, off, n, hd, -⟩ := hok.retained hrt
      cases (h.link.classic hr d.tag ht b).symm.trans (borrows_eq_true.2 ⟨off, n, hd⟩)
  obtain ⟨segs, hsegs⟩ := hok.copied hret
  have hlease : SlotData.LeaseOk (w.conn.slot d.tag).dataLen segs := by
    rcases hok.fill.buffer with ⟨segs', hd, hle⟩ | ⟨b, off, hd, -⟩
    · rw [hsegs] at hd
      cases hd
      exact hle
    · rw [hsegs] at hd
      cases hd
  have hcount := hok.count
  have hfits := hok.fill.fits
  have hcap := hlease.2
  refine ⟨pdu, segs, subSegs 0 segs (d.base + w.cur.payload.length) d.remaining, ?_, hok, hsegs, ?_⟩
  · have hslot : (w.conn.link.queue.slots.slots d.tag).data = .leased segs := hsegs
    unfold Conn.startDirect
    rw [DataPhase.dest_ok hok ht, Checked.bind_ok, SlotArray.slot_ok ht, Checked.bind_ok, hslot]
    dsimp only
    rw [Checked.require_ok _ (Nat.le_trans (subSegs_length segs _ _ _) hlease.1)]
    rfl
  · have := subSegs_covers segs [] (d.base + w.cur.payload.length) d.remaining (by omega)
    simpa using this

theorem Inv.drained (h : Inv w p) (hs : w.conn.step .drained = some (c', bs)) :
    Inv (w.note .drained c' bs) p := by
  unfold Conn.step at hs
  dsimp only at hs
  split at hs
  swap
  · cases hs
  rename_i win hc
  obtain ⟨hempty, hs⟩ := of_guard hs
  obtain ⟨rfl, rfl⟩ := Prod.mk.inj hs
  cases hr : w.conn.link.reader with
  | ring m => exact h.drained_ring hc hempty hr
  | classic =>
    have hfill : Inv (w.note .drained { w.conn with pc := .fill } []) p := by
      refine h.leave_classic hc hempty rfl (fun _ _ _ _ hx => by cases hx) fun w' hb hl hpc' => ?_
      unfold PcOk
      rw [hpc']
      refine ⟨fun m hm => ?_, ((h.inner_ok hc).2.classic h.link hr h.active).beside hb fun _ _ hh => hh⟩
      rw [hl, hr] at hm
      cases hm
    unfold Conn.drained
    rw [hr]
    dsimp only
    split
    · rename_i d hp
      split
      · rename_i last len hk
        split
        · obtain ⟨pdu, segs, subs, hstart, hok, hsegs, hcov⟩ := startDirect_spec h hc hr hp
          rw [hstart]
          refine h.leave_classic hc hempty rfl (fun _ _ _ _ hx => by cases hx)
            fun w' hb hl hpc' => ?_
          obtain ⟨hgot, hslot, -⟩ := hb.active d.tag (by rw [Conn.active, hp])
          have hcount := hok.count
          unfold PcOk
          rw [hpc']
          dsimp only
          rw [hb.phase, hb.cur, hb.digest, hgot, hslot, hl]
          refine ⟨hr, hp, pdu, segs, w.cur.payload.length, last, len, hok, hk, hsegs, Nat.le_refl _,
            by omega, hcov, ?_⟩
          rw [show pdu.dataLen - w.cur.payload.length = d.remaining by omega]
          exact hcov
        · exact hfill
      · exact hfill
    · exact hfill

/-- Places of the loop at which it awaits no tag and has not met a protocol error. -/
inductive Pc.Plain : Pc → Prop
  | fill : Plain .fill
  | inner (win : Window) : Plain (.inner win)
  | direct (d : DataPhase) (subs iovs : List Piece) : Plain (.direct d subs iovs)
  | ended (e : Option RecvEnd) (h : ∀ x, e ≠ some (.term x)) : Plain (.ended e)

/-- The connection receives through a ring, and no buffer of that is lost. -/
def Link.Kept (l : Link) : Prop := ∃ m, l.reader = .ring m ∧ m.Kept

theorem Link.kept_ring {l : Link} {m : RingMode} (h : l.reader = .ring m) : l.Kept ↔ m.Kept := by
  simp [Link.Kept, h]

/-- From `c` to `c'` nothing of the queue or the phase has changed. -/
structure Conn.Idles (c c' : Conn) : Prop where
  phase : c'.phase = c.phase
  slots : c'.link.queue.slots = c.link.queue.slots
  send : c'.link.queue.send = c.link.queue.send
  pc : c'.pc = c.pc ∨ c'.pc.Plain
  kept : c.link.Kept → c'.link.Kept

theorem Conn.Idles.goes {c : Conn} {pc : Pc} (hpc : pc.Plain) : c.Idles { c with pc } :=
  ⟨rfl, rfl, rfl, .inr hpc, id⟩

theorem drained_idles (h : Inv w p) (hs : w.conn.step .drained = some (c', bs)) :
    w.conn.Idles c' := by
  unfold Conn.step at hs
  dsimp only at hs
  split at hs
  swap
  · cases hs
  rename_i win hc
  obtain ⟨-, hs⟩ := of_guard hs
  obtain ⟨rfl, -⟩ := Prod.mk.inj hs
  unfold Conn.drained
  cases hr : w.conn.link.reader with
  | ring m =>
    obtain ⟨m', hret, -, -, hst, hheld, -⟩ := (h.link.ring m hr).1.retire RecvEnd
    dsimp only
    rw [hret]
    exact ⟨rfl, rfl, rfl, .inr .fill, fun hk =>
      ⟨m', rfl, ((Link.kept_ring hr).1 hk).steady hst fun b hb => .inr (hheld b hb)⟩⟩
  | classic =>
    dsimp only
    split
    · rename_i d hp
      split
      · split
        · obtain ⟨_, _, subs, hstart, -⟩ := startDirect_spec h hc hr hp
          rw [hstart]
          exact .goes (.direct ..)
        · exact .goes .fill
      · exact .goes .fill
    · exact .goes .fill

/-- The steps beside the queue. -/
def Action.idle : Action → Bool
  | .recv _ | .kernelFill _ | .observe | .recvEnd _ | .drained | .takeWork => true
  | _ => false

theorem idles_spec {a : Action} (h : Inv w p) (ha : a.idle = true)
    (hs : w.conn.step a = some (c', bs)) : w.conn.Idles c' := by
  cases a with
  | drained => exact drained_idles h hs
  | takeWork =>
    obtain ⟨-, hs⟩ := of_guard hs
    obtain ⟨rfl, -⟩ := Prod.mk.inj hs
    exact ⟨rfl, rfl, rfl, .inl rfl, id⟩
  | recv xs =>
    simp only [Conn.step] at hs
    split at hs
    · obtain ⟨-, hs⟩ := of_guard hs
      obtain ⟨rfl, -⟩ := Prod.mk.inj hs
      exact .goes (.inner _)
    · cases hs
  | kernelFill xs =>
    simp only [Conn.step] at hs
    split at hs
    · rename_i m hr
      obtain ⟨ring, hf, heq⟩ := Option.map_eq_some_iff.1 hs
      obtain ⟨rfl, -⟩ := Prod.mk.inj heq
      obtain ⟨bid, rest, hprov, -, -, rfl⟩ := BufRing.kernelFill_eq hf
      exact ⟨rfl, rfl, rfl, .inl rfl, fun hk =>
        ⟨_, rfl, ((Link.kept_ring hr).1 hk).fillHead hprov⟩⟩
    · cases hs
  | observe =>
    simp only [Conn.step] at hs
    split at hs
    · rename_i m hc hr
      obtain ⟨m', ho, hs⟩ := Option.bind_eq_some_iff.1 hs
      obtain ⟨cur, hcur, heq⟩ := Option.map_eq_some_iff.1 hs
      obtain ⟨rfl, -⟩ := Prod.mk.inj heq
      obtain ⟨c, rest, hnone, hcq, rfl⟩ := RingMode.observe_eq ho
      exact ⟨rfl, rfl, rfl, .inr (.inner _), fun hk =>
        ⟨_, rfl, ((Link.kept_ring hr).1 hk).observed hnone hcq⟩⟩
    · cases hs
  | recvEnd e =>
    simp only [Conn.step] at hs
    split at hs
    · obtain ⟨he, hs⟩ := of_guard hs
      obtain ⟨rfl, -⟩ := Prod.mk.inj hs
      exact .goes (.ended _ fun x hx => by rcases he with rfl | rfl <;> cases hx)
    · obtain ⟨rfl, hs⟩ := of_guard hs
      obtain ⟨rfl, -⟩ := Prod.mk.inj hs
      exact .goes (.ended _ fun x hx => by cases hx)
    · cases hs
  | _ => cases ha

end Ioutgt.Tcp
