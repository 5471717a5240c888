import Ioutgt.Tcp.Proof.RecvSafe

/-!
# Solicited transfers, as host and target see them

* `Agrees`: a transfer the host has not finished is one the target waits for.
* `LedgerOk`: so for all of them, and nothing has made the target terminate the connection.
* `LedgerOk.quiet`: steps that change no transfer.
-/

namespace Ioutgt.Tcp

open Ioutgt.Core Ioutgt.Nvme Ioutgt.Uring

variable {c c' : Conn} {t : Nat} {ws : List SendWork} {kind : PayloadKind} {s : Slot Sqe}

/-- The length of the H2CData PDU under way for tag `t`. -/
def Conn.underWay (c : Conn) (t : Nat) : Nat :=
  match c.payload with
  | some (u, .h2c _ length) => if u = t then length else 0
  | _ => 0

/-- The slot of `t` waits for what the host still has to send of `tr`. -/
structure Agrees (c : Conn) (t : Nat) (tr : Transfer) : Prop where
  lt : t < c.link.queue.slots.nslots
  state : (c.slot t).state = .receiving
  cid : (c.slot t).cmd.cid = tr.cid
  len : (c.slot t).dataLen = tr.len
  sent : (c.slot t).recvOffset + c.underWay t = tr.sent
  solicited : c.payload ≠ some (t, .inCapsule)

/-- A capsule that waits for a tag is of a legal size, and the loop did not end for a protocol error. -/
structure Pc.Calm (pc : Pc) : Prop where
  sized : ∀ win sqe n d, pc = .awaitTag win sqe n d → SizeOk sqe n
  alive : ∀ e, pc ≠ .ended (some (.term e))

theorem Pc.Plain.calm {pc : Pc} (h : pc.Plain) : pc.Calm := by
  refine ⟨fun _ _ _ _ hx => ?_, fun e hx => ?_⟩
  · subst hx
    cases h
  · subst hx
    cases h with
    | ended _ h => exact h e rfl

structure LedgerOk (h : Hosted) : Prop where
  pending : ∀ t tr, h.ledger t = some tr → tr.sent < tr.len → Agrees h.conn t tr
  last : ∀ t length, h.conn.payload = some (t, .h2c true length) →
    (h.conn.slot t).recvOffset + length = (h.conn.slot t).dataLen
  calm : h.conn.pc.Calm

structure SameTransfer (s s' : Slot Sqe) : Prop where
  state : s'.state = s.state
  cmd : s'.cmd = s.cmd
  len : s'.dataLen = s.dataLen
  offset : s'.recvOffset = s.recvOffset

theorem SameTransfer.refl (s : Slot Sqe) : SameTransfer s s := ⟨rfl, rfl, rfl, rfl⟩

theorem Agrees.same {tr : Transfer} (h : Agrees c t tr)
    (hn : c'.link.queue.slots.nslots = c.link.queue.slots.nslots)
    (hs : SameTransfer (c.slot t) (c'.slot t)) (hu : c'.underWay t = c.underWay t)
    (hp : c'.payload ≠ some (t, .inCapsule)) : Agrees c' t tr where
  lt := by rw [hn]; exact h.lt
  state := hs.state.trans h.state
  cid := by rw [hs.cmd]; exact h.cid
  len := hs.len.trans h.len
  sent := by rw [hs.offset, hu]; exact h.sent
  solicited := hp

def NoR2t (ws : List SendWork) : Prop := ∀ tag cid offset length, .r2t tag cid offset length ∉ ws

theorem NoR2t.ask (h : NoR2t ws) (led : Ledger) : led.ask ws = led := by
  unfold Ledger.ask
  induction ws generalizing led with
  | nil => rfl
  | cons w ws ih =>
    have htail : NoR2t ws := fun tag cid offset length hm =>
      h tag cid offset length (List.mem_cons_of_mem _ hm)
    cases w with
    | response c => exact ih htail led
    | r2t tag cid offset length => exact absurd List.mem_cons_self (h tag cid offset length)

theorem Conn.underWay_congr (h : c'.payload = c.payload) (t : Nat) :
    c'.underWay t = c.underWay t := by
  unfold Conn.underWay
  rw [h]

section
variable {h : Hosted} {p : Pos} {a : Action}

def Hosted.pushed (h : Hosted) (c' : Conn) : List SendWork :=
  c'.link.queue.send.drop h.conn.link.queue.send.length

theorem Hosted.book_same (hask : NoR2t (h.pushed c')) (hpay : c'.payload = h.conn.payload) :
    Hosted.book h.ledger h.conn c' = h.ledger := by
  unfold Hosted.book
  dsimp only
  rw [show c'.link.queue.send.drop h.conn.link.queue.send.length = h.pushed c' from rfl, hask.ask,
    hpay]
  split
  · rename_i h1 h2
    rw [h1] at h2
    cases h2
  · rfl

theorem LedgerOk.quiet (hk : LedgerOk h) (hinv : Inv h.watched p) (w' : Watched)
    (hpay : w'.conn.payload = h.conn.payload)
    (hn : w'.conn.link.queue.slots.nslots = h.conn.link.queue.slots.nslots)
    (hslots : ∀ t < h.conn.link.queue.slots.nslots, (h.conn.slot t).state = .receiving →
      SameTransfer (h.conn.slot t) (w'.conn.slot t))
    (hask : NoR2t (h.pushed w'.conn))
    (hcalm : w'.conn.pc.Calm) :
    LedgerOk ⟨w', Hosted.book h.ledger h.conn w'.conn⟩ := by
  rw [Hosted.book_same hask hpay]
  refine ⟨fun t tr ht hlt => ?_, fun t length hp => ?_, hcalm⟩
  · have hag := hk.pending t tr ht hlt
    refine hag.same hn (hslots t hag.lt hag.state) (Conn.underWay_congr hpay t) ?_
    rw [show (Hosted.mk w' h.ledger).conn.payload = h.conn.payload from hpay]
    exact hag.solicited
  · have hp' : h.conn.payload = some (t, .h2c true length) := hpay.symm.trans hp
    have hact := Conn.payload_active hp'
    have hlt := hinv.active t hact
    have hs := hslots t hlt ((hinv.slots t hlt).active hact)
    show (w'.conn.slot t).recvOffset + length = (w'.conn.slot t).dataLen
    rw [hs.offset, hs.len]
    exact hk.last t length hp'

variable {c' : Conn} {bs : List UInt8}

theorem LedgerOk.sameQueue (hk : LedgerOk h) (hinv : Inv h.watched p)
    (hphase : c'.phase = h.conn.phase) (hslots : c'.link.queue.slots = h.conn.link.queue.slots)
    (hsend : c'.link.queue.send = h.conn.link.queue.send)
    (hcalm : c'.pc.Calm) :
    LedgerOk ⟨h.watched.note a c' bs, Hosted.book h.ledger h.conn c'⟩ := by
  refine hk.quiet hinv (h.watched.note a c' bs) ?_ ?_ (fun t _ _ => ?_) ?_ hcalm
  · unfold Conn.payload
    rw [Watched.note_conn, hphase]
  · rw [Watched.note_conn, hslots]
  · rw [Watched.note_conn, Conn.slot, Conn.slot, hslots]
    exact .refl _
  · rw [Watched.note_conn, Hosted.pushed, hsend, List.drop_length]
    exact fun _ _ _ _ hm => absurd hm List.not_mem_nil

theorem LedgerOk.task {old : SlotState} (hk : LedgerOk h) (hinv : Inv h.watched p)
    (ht : TaskStep h.watched p c' bs t old s ws) (hold : old ≠ .receiving) (hws : NoR2t ws) :
    LedgerOk ⟨h.watched.note a c' bs, Hosted.book h.ledger h.conn c'⟩ := by
  obtain ⟨l', rfl, hstep⟩ := ht.link
  refine hk.quiet hinv (h.watched.note a (h.conn.relink l') bs) rfl hstep.touched.nslots
    (fun u _ hu => ?_) ?_ hk.calm
  · have hne : u ≠ t := by
      rintro rfl
      exact hold (ht.state.symm.trans hu)
    have hsame : (h.conn.relink l').slot u = h.conn.slot u := hstep.touched.other hne
    rw [Watched.note_conn, hsame]
    exact .refl _
  · rw [Watched.note_conn, Hosted.pushed]
    show NoR2t (l'.queue.send.drop h.watched.conn.link.queue.send.length)
    rw [hstep.touched.send, List.drop_left]
    exact hws

theorem noR2t_response (c : Completion) : NoR2t [.response c] := by
  intro _ _ _ _ hm
  cases List.mem_singleton.1 hm

theorem noR2t_nil : NoR2t [] := fun _ _ _ _ hm => absurd hm List.not_mem_nil

/-- Windows coming and going, the slot tasks, the send loop and the kernel change no transfer. -/
theorem LedgerOk.beside (hk : LedgerOk h) (hinv : Inv h.watched p)
    (hs : h.conn.step a = some (c', bs)) (hround : a ≠ .round) (hclaim : ∀ segs, a ≠ .claim segs)
    (hmsg : ∀ xs, a ≠ .recvmsg xs) :
    LedgerOk ⟨h.watched.note a c' bs, Hosted.book h.ledger h.conn c'⟩ := by
  cases a with
  | round => exact absurd rfl hround
  | claim segs => exact absurd rfl (hclaim segs)
  | recvmsg xs => exact absurd rfl (hmsg xs)
  | awaitCommand t => exact hk.task hinv (awaitCommand_spec hinv.link hs) (by decide) noR2t_nil
  | touch t segs => exact hk.task hinv (touch_spec hinv.link hs) (by decide) noR2t_nil
  | complete t result rsvd status dataLen =>
    obtain ⟨c, hstep, -⟩ := complete_spec hinv.link hs
    exact hk.task hinv hstep (by decide) (noR2t_response c)
  | releaseTag t => exact hk.task hinv (releaseTag_spec hinv.link hs) (by decide) noR2t_nil
  | _ =>
    have hid := idles_spec hinv rfl hs
    refine hk.sameQueue hinv hid.phase hid.slots hid.send ?_
    rcases hid.pc with hpc | hpc
    · rw [hpc]
      exact hk.calm
    · exact hpc.calm

/-! ## The PDU under way -/

theorem Hosted.book_eq_ask (hpay : h.conn.payload ≠ none ∨ c'.payload = none) :
    Hosted.book h.ledger h.conn c' = h.ledger.ask (h.pushed c') := by
  unfold Hosted.book
  dsimp only
  split
  · rename_i h1 h2
    rcases hpay with hpay | hpay
    · exact absurd h1 hpay
    · rw [hpay] at h2
      cases h2
  · rfl

theorem Conn.underWay_none (h : c.payload = none) (t : Nat) : c.underWay t = 0 := by
  unfold Conn.underWay
  rw [h]

theorem Conn.underWay_other {u : Nat} (h : c.payload = some (t, kind)) (hne : u ≠ t) :
    c.underWay u = 0 := by
  unfold Conn.underWay
  rw [h]
  cases kind with
  | inCapsule => rfl
  | h2c last length => simp [Ne.symm hne]

theorem Conn.underWay_self {length : Nat} {last : Bool} (h : c.payload = some (t, .h2c last length))
    : c.underWay t = length := by
  unfold Conn.underWay
  rw [h]
  simp

theorem LedgerOk.closes (hk : LedgerOk h) (hpay : h.conn.payload = some (t, kind))
    (hpay' : c'.payload = none) (htouch : Touched h.conn.link.queue c'.link.queue t s ws)
    (hws : NoR2t ws)
    (ht : ∀ tr, Agrees h.conn t tr → tr.sent < tr.len → s.state = .receiving ∧
      s.cmd = (h.conn.slot t).cmd ∧ s.dataLen = (h.conn.slot t).dataLen ∧ s.recvOffset = tr.sent)
    (hcalm : c'.pc.Calm) : LedgerOk ⟨h.watched.note a c' bs, Hosted.book h.ledger h.conn c'⟩ := by
  have hbook : Hosted.book h.ledger h.conn c' = h.ledger := by
    rw [Hosted.book_eq_ask (.inr hpay')]
    unfold Hosted.pushed
    rw [htouch.send, List.drop_left]
    exact hws.ask _
  have hnone : ∀ u, c'.payload ≠ some (u, .inCapsule) := by
    intro u
    rw [hpay']
    simp
  rw [hbook]
  refine ⟨fun u tr hu hlt => ?_, fun u length hp => ?_, hcalm⟩
  · have hag := hk.pending u tr hu hlt
    show Agrees c' u tr
    by_cases hut : u = t
    · subst hut
      obtain ⟨h1, h2, h3, h4⟩ := ht tr hag hlt
      have hs : c'.slot u = s := htouch.self
      refine ⟨by rw [htouch.nslots]; exact hag.lt, by rw [hs, h1], by rw [hs, h2]; exact hag.cid,
        by rw [hs, h3]; exact hag.len, ?_, hnone u⟩
      rw [hs, h4, Conn.underWay_none hpay']
      rfl
    · have hs : c'.slot u = h.conn.slot u := htouch.other hut
      refine hag.same htouch.nslots (by rw [hs]; exact .refl _) ?_ (hnone u)
      rw [Conn.underWay_none hpay', Conn.underWay_other hpay hut]
  · rw [show (Hosted.mk (h.watched.note a c' bs) h.ledger).conn.payload = none from hpay'] at hp
    cases hp

theorem LedgerOk.phaseStep {ps : List Pdu} {cur : Pdu} {dd : Bool} {phase : RecvPhase}
    (hk : LedgerOk h) (hinv : Inv h.watched p) (hpay : h.conn.payload = some (t, kind))
    (hstep : PhaseStep dd h.conn.link t kind ps cur c'.link.queue phase s)
    (hphase : c'.phase = phase) (hcalm : c'.pc.Calm) :
    LedgerOk ⟨h.watched.note a c' bs, Hosted.book h.ledger h.conn c'⟩ := by
  have hact := Conn.payload_active hpay
  have hlt := hinv.active t hact
  have hrecv : (h.conn.slot t).state = .receiving := (hinv.slots t hlt).active hact
  have hslot : c'.slot t = s := hstep.touched.self
  -- a phase that goes on keeps its slot's transfer
  have hquiet : s.state = .receiving → s.recvOffset = (h.conn.slot t).recvOffset →
      c'.payload = some (t, kind) →
      LedgerOk ⟨h.watched.note a c' bs, Hosted.book h.ledger h.conn c'⟩ := by
    intro hst hoff hpay'
    refine hk.quiet hinv (h.watched.note a c' bs) (hpay'.trans hpay.symm) hstep.touched.nslots
      (fun u _ _ => ?_) ?_ hcalm
    · rw [Watched.note_conn]
      by_cases hu : u = t
      · rw [hu, hslot]
        exact ⟨hst.trans hrecv.symm, hstep.cmd, hstep.len, hoff⟩
      · have hsame : c'.slot u = h.conn.slot u := hstep.touched.other hu
        rw [hsame]
        exact .refl _
    · rw [Watched.note_conn, Hosted.pushed, hstep.touched.send, List.drop_left]
      exact noR2t_nil
  cases hstep.moved with
  | @data d pdu tag same ok offset held =>
    refine hquiet ok.fill.state offset ?_
    rw [Conn.payload, hphase]
    dsimp only
    rw [tag, same]
  | @ddgst g base pdu tag same ok offset =>
    refine hquiet ok.fill.state offset ?_
    rw [Conn.payload, hphase]
    dsimp only
    rw [tag, same]
  | done hst ok fr ver whole =>
    refine hk.closes hpay (by rw [Conn.payload, hphase]) hstep.touched noR2t_nil ?_ hcalm
    intro tr hag hless
    obtain ⟨last, len, rfl⟩ : ∃ last len, kind = .h2c last len := by
      cases kind with
      | inCapsule => exact absurd hpay hag.solicited
      | h2c last len => exact ⟨last, len, rfl⟩
    have hsent := hag.sent
    rw [Conn.underWay_self hpay] at hsent
    have hlen : s.dataLen = tr.len := hstep.len.trans hag.len
    have hwhole : (payloads (ps ++ [cur])).length = tr.sent := (whole last len rfl).trans hsent
    rcases hst with hst | hst
    · refine ⟨hst, hstep.cmd, hstep.len, ?_⟩
      rcases ok.receiving hst with h0 | hwait
      · omega
      · exact hwait.offset.trans hwhole
    · have := (ok.ready hst).len
      omega

/-- A failed part of the loop was a last PDU that came short; the host sends none. -/
theorem LedgerOk.not_short (hk : LedgerOk h) (hpay : h.conn.payload = some (t, kind)) :
    ¬Short (h.conn.slot t) kind := by
  rintro ⟨len, rfl, hne⟩
  exact hne (hk.last t len hpay)

theorem LedgerOk.opens {length : Nat} {last : Bool} {tr : Transfer} (hk : LedgerOk h)
    (hpay : h.conn.payload = none) (hpay' : c'.payload = some (t, .h2c last length))
    (htouch : Touched h.conn.link.queue c'.link.queue t s [])
    (hsame : SameTransfer (h.conn.slot t) s) (htr : h.ledger t = some tr) (hag : Agrees h.conn t tr)
    (hlast : last = true → tr.sent + length = tr.len) (hcalm : c'.pc.Calm) :
    LedgerOk ⟨h.watched.note a c' bs, Hosted.book h.ledger h.conn c'⟩ := by
  have hbook : Hosted.book h.ledger h.conn c' = h.ledger.send t length := by
    unfold Hosted.book
    rw [hpay, hpay', htouch.send, List.drop_left]
    rfl
  have hslot : ∀ u, SameTransfer (h.conn.slot u) (c'.slot u) := by
    intro u
    show SameTransfer _ (c'.link.queue.slots.slots u)
    rw [htouch.slots]
    by_cases hu : u = t
    · rw [hu, Function.update_self]
      exact hsame
    · rw [Function.update_of_ne hu]
      exact .refl _
  have hoff := hag.sent
  rw [Conn.underWay_none hpay, Nat.add_zero] at hoff
  have hnc : ∀ u, c'.payload ≠ some (u, .inCapsule) := by
    intro u
    rw [hpay']
    simp
  rw [hbook]
  refine ⟨fun u tr' hu hlt => ?_, fun u len hp => ?_, hcalm⟩
  · show Agrees c' u tr'
    dsimp only at hu
    unfold Ledger.send at hu
    by_cases hut : u = t
    · subst hut
      rw [Function.update_self, htr] at hu
      obtain rfl := Option.some.inj hu
      have hs := hslot u
      refine ⟨by rw [htouch.nslots]; exact hag.lt, hs.state.trans hag.state, ?_,
        hs.len.trans hag.len, ?_, hnc u⟩
      · rw [hs.cmd]
        exact hag.cid
      · rw [hs.offset, hoff, Conn.underWay_self hpay']
    · rw [Function.update_of_ne hut] at hu
      refine (hk.pending u tr' hu hlt).same htouch.nslots (hslot u) ?_ (hnc u)
      rw [Conn.underWay_none hpay, Conn.underWay_other hpay' hut]
  · have hp' : c'.payload = some (u, .h2c true len) := hp
    rw [hpay'] at hp'
    cases hp'
    show (c'.slot t).recvOffset + length = (c'.slot t).dataLen
    rw [(hslot t).offset, (hslot t).len, hoff, hag.len]
    exact hlast rfl

end

end Ioutgt.Tcp
