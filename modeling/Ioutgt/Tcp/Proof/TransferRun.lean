import Ioutgt.Tcp.Proof.Transfer

/-!
# Transfers along a run of a conforming host

* `LedgerOk.round`, `LedgerOk.claim`, `LedgerOk.recvmsg`: the steps of the receive loop.
* `LedgerOk.step`: any step in which the host conforms and no transfer is cut off by a digest.
* `Hosted.run_ok`: so for any run of such steps.
-/

namespace Ioutgt.Tcp

open Lib Ioutgt.Core Ioutgt.Nvme Ioutgt.Uring

section
variable {h : Hosted} {p : Pos} {c' : Conn} {bs : List UInt8} {win : Window}

/-! ## Rounds -/

theorem Conn.payload_header {c : Conn} (hp : c.phase = .header) : c.payload = none := by
  rw [Conn.payload, hp]

theorem Agrees.accepted {cid t offset length : Nat} {tr : Transfer} (hag : Agrees h.conn t tr)
    (hinv : Inv h.watched p) (hpay : h.conn.payload = none) (hact : h.conn.active = none)
    (hcid : tr.cid = cid) (hsent : tr.sent = offset) (hend : offset + length ≤ tr.len)
    (hpos : 0 < length) : validateH2c h.conn.link.queue cid t offset length length = .ok t := by
  have hoff := hag.sent
  rw [Conn.underWay_none hpay, Nat.add_zero] at hoff
  have hidle : SlotOk h.conn.link t (h.watched.got t) (h.conn.slot t) :=
    (hinv.slots t hag.lt).idle (by rw [show h.watched.conn.active = none from hact]; simp)
  have hmdts : (h.conn.slot t).dataLen ≤ mdtsBytes := by
    rcases hidle.receiving hag.state with h0 | hw
    · omega
    · exact hw.mdts
  have hlen := hag.len
  exact validateH2c_ok hinv.link.nslots hag.lt hag.state (hag.cid.trans hcid)
    (hsent.symm.trans hoff.symm) (by show _ ≤ (h.conn.slot t).dataLen; omega) hpos hmdts

theorem Hosted.Conforms.allows {pdu : DecodedPdu} (hconf : h.Conforms .round)
    (hc : h.conn.pc = .inner win) (hp : h.conn.phase = .header)
    (hn : h.conn.incoming win = .ok (some pdu)) : Hosted.Allows h.ledger pdu := by
  unfold Hosted.Conforms at hconf
  simp only [hp, hc, hn] at hconf
  exact hconf pdu rfl

/-- A conforming host gives no reason to end the connection but its own termination of it. -/
theorem LedgerOk.fails {e : RecvEnd} (hk : LedgerOk h) (hinv : Inv h.watched p)
    (hconf : h.Conforms .round) (hc : h.conn.pc = .inner win) (hf : h.conn.Fails win e) :
    ∃ fes fei, e = .hostTerm fes fei := by
  cases hf with
  | short t kind pay hshort => exact absurd hshort (hk.not_short pay)
  | decoder phase hno =>
    unfold Hosted.Conforms at hconf
    simp only [phase, hc] at hconf
    split at hconf
    · rename_i next hnext
      exact absurd hnext (hno next)
    · exact hconf.elim
  | header phase pdu next href =>
    have hal := hconf.allows hc phase next
    unfold Hosted.Allows at hal
    unfold Refuses at href
    cases hkind : pdu.kind with
    | capsuleCmd sqe => simp only [hkind] at href
    | h2cTerm fes fei =>
      simp only [hkind] at href
      exact ⟨fes, fei, href⟩
    | h2cData cid ttag offset length last =>
      simp only [hkind] at hal href
      obtain ⟨hdl, hpos, tr, htr, hcid, hsent, hend, -⟩ := hal
      rw [hdl] at href
      exact absurd ((hk.pending ttag tr htr (by omega)).accepted hinv (Conn.payload_header phase)
        (by rw [Conn.active, phase]) hcid hsent hend hpos) href
    | _ => simp only [hkind] at hal

theorem LedgerOk.round (hk : LedgerOk h) (hinv : Inv h.watched p) (hconf : h.Conforms .round)
    (hlast : h.WrongIsLast .round) (hs : h.conn.step .round = some (c', bs)) :
    LedgerOk ⟨h.watched.note .round c' bs, Hosted.book h.ledger h.conn c'⟩ := by
  obtain ⟨win, hc, -, ⟨e, hf, rfl, rfl⟩ | ⟨n, rfl, hr⟩⟩ := round_spec hinv hs
  · obtain ⟨fes, fei, rfl⟩ := hk.fails hinv hconf hc hf
    exact hk.sameQueue hinv rfl rfl rfl ⟨fun _ _ _ _ hx => (by cases hx), fun _ hx => (by cases hx)⟩
  have hcalm := (Pc.Plain.inner (win.drop n)).calm
  cases hr with
  | more dec n phase fed open_ => exact hk.sameQueue hinv rfl rfl rfl hcalm
  | capsule sqe pdu hdr dec n head kind =>
    have hal := hconf.allows hc head.phase head.next
    unfold Hosted.Allows at hal
    simp only [kind] at hal
    refine hk.sameQueue hinv rfl rfl rfl ⟨fun w sqe' n' d' hx => ?_, fun _ hx => by cases hx⟩
    cases hx
    exact hal
  | opened cid offset length last pdu hdr dec n l' d head kind same ok =>
    have hal := hconf.allows hc head.phase head.next
    unfold Hosted.Allows at hal
    simp only [kind] at hal
    obtain ⟨-, hpos, tr, htr, -, hsent, hend, hwhole⟩ := hal
    have hag := hk.pending d.tag tr htr (by omega)
    obtain ⟨s, hstep, hst, hcmd, hlen, hoff, -⟩ := ok.step
    refine hk.opens (Conn.payload_header head.phase) ?_ hstep.touched
      ⟨hst.trans hag.state.symm, hcmd, hlen, hoff⟩ htr hag (fun hl => by rw [hsent]; exact hwhole hl)
      hcalm
    show some (d.tag, d.kind) = _
    rw [same]
  | went t kind q phase s n pay le ne step here => exact hk.phaseStep hinv pay step rfl hcalm
  | mismatch g q n phase le ne failed wrong =>
    have hpay : h.conn.payload = some (g.tag, g.kind) := by
      rw [Conn.payload, show h.conn.phase = _ from phase]
    obtain ⟨c, htouch, -⟩ := failed.touched
    refine hk.closes hpay rfl htouch (noR2t_response c) ?_ hcalm
    -- the failed PDU was its transfer's last one, so the host has no more to send of it
    intro tr hag hless
    obtain ⟨last, len, hkind⟩ : ∃ last len, g.kind = .h2c last len := by
      cases hkd : g.kind with
      | inCapsule => exact absurd (by rw [hpay, hkd]) hag.solicited
      | h2c last len => exact ⟨last, len, rfl⟩
    unfold Hosted.WrongIsLast at hlast
    simp only [show h.conn.phase = _ from phase, show h.conn.pc = _ from hc, hkind] at hlast
    have hwhole := hlast wrong
    have hsent := hag.sent
    have hlen := hag.len
    rw [Conn.underWay_self (by rw [hpay, hkind])] at hsent
    omega

/-! ## Claims -/

theorem LedgerOk.admits {a : Action} {t : Nat} {s : Slot Sqe} {ws : List SendWork} (hk : LedgerOk h)
    (hpay : h.conn.payload = none) (hlt : t < h.conn.link.queue.slots.nslots)
    (hfree : (h.conn.slot t).state = .free)
    (htouch : Touched h.conn.link.queue c'.link.queue t s ws)
    (hasked : ws = [] ∨ ws = [.r2t t s.cmd.cid 0 s.dataLen] ∧ s.state = .receiving ∧
      s.recvOffset = 0 ∧ c'.payload = none)
    (hpay' : c'.payload = none ∨ c'.payload = some (t, .inCapsule))
    (hcalm : c'.pc.Calm) :
    LedgerOk ⟨h.watched.note a c' bs, Hosted.book h.ledger h.conn c'⟩ := by
  have hbook : Hosted.book h.ledger h.conn c' = h.ledger.ask ws := by
    unfold Hosted.book
    rw [htouch.send, List.drop_left]
    rcases hpay' with hx | hx <;> rw [hpay, hx]
  have hzero : ∀ u, c'.underWay u = 0 := by
    intro u
    rcases hpay' with hx | hx
    · exact Conn.underWay_none hx u
    · unfold Conn.underWay
      rw [hx]
  have hother : ∀ u tr, u ≠ t → h.ledger u = some tr → tr.sent < tr.len → Agrees c' u tr := by
    intro u tr hu htr hless
    have hsame : c'.slot u = h.conn.slot u := htouch.other hu
    refine (hk.pending u tr htr hless).same htouch.nslots (by rw [hsame]; exact .refl _) ?_ ?_
    · rw [hzero, Conn.underWay_none hpay]
    · rcases hpay' with hx | hx <;> rw [hx] <;> simp [Ne.symm hu]
  have hnone : ∀ u len, c'.payload ≠ some (u, .h2c true len) := by
    intro u len
    rcases hpay' with hx | hx <;> rw [hx] <;> simp
  have hslot : c'.slot t = s := htouch.self
  rw [hbook]
  refine ⟨fun u tr htr hless => ?_, fun u len hx => absurd hx (hnone u len), hcalm⟩
  show Agrees c' u tr
  dsimp only at htr
  rcases hasked with rfl | ⟨rfl, hst, hoff, hno⟩
  · by_cases hu : u = t
    · subst hu
      have := (hk.pending u tr htr hless).state
      rw [hfree] at this
      cases this
    · exact hother u tr hu htr hless
  · by_cases hu : u = t
    · subst hu
      have htr' : some ⟨s.cmd.cid, s.dataLen, 0⟩ = some tr :=
        (Function.update_self (f := h.ledger) u _).symm.trans htr
      obtain rfl := Option.some.inj htr'
      refine ⟨by rw [htouch.nslots]; exact hlt, by rw [hslot, hst], by rw [hslot], by rw [hslot], ?_,
        by rw [hno]; simp⟩
      rw [hslot, hoff, hzero]
    · exact hother u tr hu ((Function.update_of_ne hu _ h.ledger).symm.trans htr) hless

theorem LedgerOk.claim {segs : List (List UInt8)} (hk : LedgerOk h) (hinv : Inv h.watched p)
    (hs : h.conn.step (.claim segs) = some (c', bs)) :
    LedgerOk ⟨h.watched.note (.claim segs) c' bs, Hosted.book h.ledger h.conn c'⟩ := by
  obtain ⟨rfl, win, sqe, pdu, t, hw, hlt, hold, hcl⟩ := claim_spec hinv hs
  have hnone := Conn.payload_header (c := h.conn) hw.phase
  cases hcl with
  | refused e l' s size step state len => exact absurd (hk.calm.sized _ _ _ _ hw.pc) size
  | accepted l' phase ok =>
    cases ok with
    | payload d s tag step data here =>
      refine hk.admits hnone hlt hold step.touched (.inl rfl) (.inr ?_) (Pc.Plain.inner _).calm
      have hin : d.kind = .inCapsule := by
        cases data.fill.source with
        | inCapsule hin => exact hin
        | h2c last cid _ hpdu => rw [hw.kind] at hpdu; cases hpdu
      show some (d.tag, d.kind) = _
      rw [tag, hin]
    | headerOnly s ws step asked ok framed =>
      refine hk.admits hnone hlt hold step.touched ?_ (.inl rfl) (Pc.Plain.inner _).calm
      rcases asked with ⟨rfl, -⟩ | ⟨rfl, hst, hoff⟩
      · exact .inl rfl
      · exact .inr ⟨rfl, hst, hoff, rfl⟩

/-! ## The direct path -/

theorem LedgerOk.recvmsg {bs' : List UInt8} (hk : LedgerOk h) (hinv : Inv h.watched p)
    (hs : h.conn.step (.recvmsg bs) = some (c', bs')) :
    LedgerOk ⟨h.watched.note (.recvmsg bs) c' bs', Hosted.book h.ledger h.conn c'⟩ := by
  obtain ⟨-, d, subs, iovs, pdu, segs, k, -, -, hp, -, hdir, -, hrecv⟩ := recvmsg_spec hinv hs
  have hpay : h.conn.payload = some (d.tag, d.kind) := by
    rw [Conn.payload, show h.conn.phase = _ from hp]
  have hlt := hinv.active d.tag (Conn.payload_active hpay)
  cases hrecv with
  | closed =>
    exact hk.sameQueue hinv rfl rfl rfl ⟨fun _ _ _ _ hx => (by cases hx), fun _ hx => (by cases hx)⟩
  | short e hshort => exact absurd hshort (hk.not_short hpay)
  | whole q phase s hstep hnd =>
    exact hk.phaseStep hinv hpay hstep rfl ⟨fun _ _ _ _ hx => (by cases hx), fun _ hx => (by cases hx)⟩
  | more =>
    obtain ⟨htouch, -⟩ := hdir.touched hinv hlt (Lib.scatter segs iovs bs)
    refine hk.quiet hinv (h.watched.note _ _ bs') rfl htouch.nslots (fun u _ _ => ?_) ?_
      ⟨fun _ _ _ _ hx => (by cases hx), fun _ hx => (by cases hx)⟩
    · show SameTransfer _ ((h.watched.conn.scattered d _).link.queue.slots.slots u)
      rw [htouch.slots]
      by_cases hu : u = d.tag
      · rw [hu, Function.update_self]
        exact ⟨rfl, rfl, rfl, rfl⟩
      · rw [Function.update_of_ne hu]
        exact .refl _
    · show NoR2t ((h.watched.conn.scattered d _).link.queue.send.drop _)
      rw [htouch.send, List.append_nil, show h.watched.conn = h.conn from rfl, List.drop_length]
      exact noR2t_nil

end

/-! ## Runs -/

theorem LedgerOk.start (c : Conn) (hc : c.pc = .fill) (hp : c.phase = .header) :
    LedgerOk (Hosted.start c) where
  pending := fun _ _ hx => by cases hx
  last := by
    intro t length hx
    rw [show (Hosted.start c).conn.payload = none from Conn.payload_header hp] at hx
    cases hx
  calm := by
    rw [show (Hosted.start c).conn.pc = .fill from hc]
    exact Pc.Plain.fill.calm

/-- **One step** in which the host conforms, and no wrong digest cuts a transfer off. -/
theorem LedgerOk.step {h h' : Hosted} {p : Pos} {a : Action} (hk : LedgerOk h)
    (hinv : Inv h.watched p) (hconf : h.Conforms a) (hlast : h.WrongIsLast a)
    (hs : h.step a = some h') : LedgerOk h' := by
  obtain ⟨w', hw, rfl⟩ := Option.map_eq_some_iff.1 hs
  obtain ⟨⟨c', bs⟩, hstep, rfl⟩ := Option.map_eq_some_iff.1 hw
  cases a with
  | round => exact hk.round hinv hconf hlast hstep
  | claim segs => exact hk.claim hinv hstep
  | recvmsg xs => exact hk.recvmsg hinv hstep
  | _ => exact hk.beside hinv hstep (by simp) (by simp) (by simp)

theorem Hosted.run_ok {cfg : ConnCfg} {c : Conn} {as : List Action} {h : Hosted}
    (hinit : Conn.init cfg = .ok c)
    (hok : StepsOk Hosted.step (fun h a => h.Conforms a ∧ h.WrongIsLast a) (Hosted.start c) as)
    (hrun : runFrom Hosted.step (Hosted.start c) as = some h) : LedgerOk h := by
  obtain ⟨l, -, hc, -⟩ := Conn.init_ok cfg
  rw [hc] at hinit
  obtain rfl := Except.ok.inj hinit
  have hkeep : ∀ {h h' : Hosted} {a : Action}, ((∃ p, Inv h.watched p) ∧ LedgerOk h) →
      (h.Conforms a ∧ h.WrongIsLast a) → h.step a = some h' →
      (∃ p, Inv h'.watched p) ∧ LedgerOk h' := by
    rintro h h' a ⟨⟨p, hinv⟩, hk⟩ ⟨hconf, hlast⟩ hs
    refine ⟨?_, hk.step hinv hconf hlast hs⟩
    obtain ⟨w', hw, rfl⟩ := Option.map_eq_some_iff.1 hs
    exact ⟨_, hinv.step hw⟩
  exact (runFrom_invariant_of hkeep ⟨⟨_, Inv.start hc⟩, LedgerOk.start _ rfl rfl⟩ hok hrun).2

end Ioutgt.Tcp
