import Ioutgt.Nvme.Proof.PduHeader
import Ioutgt.Tcp.Proof.Link
import Ioutgt.Tcp.Host

/-!
# The receive machine's invariant

* `SlotOk`: a slot that no payload is streaming into, by its state.
* `Filling`: the slot a payload is streaming into.
* `PhaseOk`, `PcOk`: the phase machine and where the loop stands.
* `Inv`: the invariant of a watched connection.
-/

namespace Ioutgt.Tcp

open Lib Ioutgt.Core Ioutgt.Nvme Ioutgt.Uring

variable {t : Nat} {p : Pos} {l l' : Link} {ps : List Pdu} {s : Slot Sqe} {w : Watched}
  {win : Window}

/-! ## Slots -/

/-- H2CData PDUs of tag `t` whose ranges follow one another from `off` on. -/
def Contiguous (t : Nat) : Nat → List Pdu → Prop
  | _, [] => True
  | off, p :: ps =>
    (p.pduType = PduType.h2cData ∧ p.ttag = t ∧ p.offset = off) ∧
      Contiguous t (off + p.payload.length) ps

theorem payloads_append (ps : List Pdu) (p : Pdu) :
    payloads (ps ++ [p]) = payloads ps ++ p.payload := by simp [payloads]

theorem Contiguous.snoc {p : Pdu} :
    ∀ {ps : List Pdu} {off : Nat}, Contiguous t off ps → p.pduType = PduType.h2cData →
      p.ttag = t → p.offset = off + (payloads ps).length → Contiguous t off (ps ++ [p])
  | [], off, _, h1, h2, h3 => ⟨⟨h1, h2, by simpa [payloads] using h3⟩, trivial⟩
  | q :: ps, off, h, h1, h2, h3 => by
    refine ⟨h.1, h.2.snoc h1 h2 ?_⟩
    rw [h3]
    simp [payloads, Nat.add_assoc]

def Pdu.Mismatch (p : Pdu) : Prop := p.hasDdgst = true ∧ ¬p.Verified

instance (p : Pdu) : Decidable p.Mismatch := inferInstanceAs (Decidable (_ ∧ _))

/-- The command in `s` had its data solicited, and `ps` are the H2CData that came for it. -/
structure Solicited (t : Nat) (s : Slot Sqe) (ps : List Pdu) : Prop where
  r2t : needsR2t s.cmd = true
  len : s.dataLen = s.cmd.dptr.length
  ranges : Contiguous t 0 ps

/-- A command that waits for H2CData; `ps` came so far. -/
structure Waiting (l : Link) (t : Nat) (ps : List Pdu) (s : Slot Sqe) : Prop where
  solicited : Solicited t s ps
  offset : s.recvOffset = (payloads ps).length
  le : s.recvOffset ≤ s.dataLen
  mdts : s.dataLen ≤ mdtsBytes
  lease : ∃ segs, s.data = .leased segs ∧ SlotData.LeaseOk s.dataLen segs
  arrived : Arrived l s.data (payloads ps)

/-- How the data of a command came: not at all, in its capsule, or solicited. -/
inductive Source (t : Nat) (s : Slot Sqe) (ps : List Pdu) : Prop
  | nothing (got : ps = []) (len : s.dataLen = 0) (r2t : needsR2t s.cmd = false)
  | capsule (p : Pdu) (got : ps = [p]) (type : p.pduType = PduType.capsuleCmd)
      (cmd : s.cmd = Sqe.readFromBytes (slice p.hdr 8 64))
  | solicited (h : Solicited t s ps)

structure Delivered (l : Link) (t : Nat) (ps : List Pdu) (s : Slot Sqe) : Prop where
  source : Source t s ps
  len : (payloads ps).length = s.dataLen
  arrived : Arrived l s.data (payloads ps)

/-- A slot that no payload is streaming into; `ps` came for the command that holds it. -/
structure SlotOk (l : Link) (t : Nat) (ps : List Pdu) (s : Slot Sqe) : Prop where
  free : s.state = .free → ps = [] ∧ s.data = .empty
  receiving : s.state = .receiving → s.dataLen = 0 ∨ Waiting l t ps s
  ready : s.state = .ready → Delivered l t ps s

theorem SlotOk.keep (h : SlotOk l t ps s) (hk : ∀ b, borrows b s = true → l.Keeps l' b) :
    SlotOk l' t ps s := by
  have hk' : ∀ b off len, s.data = .ring b off len → l.Keeps l' b :=
    fun b off len hd => hk b (borrows_eq_true.2 ⟨off, len, hd⟩)
  refine ⟨h.free, fun hs => ?_, fun hs => ?_⟩
  · exact (h.receiving hs).imp_right fun hw =>
      ⟨hw.solicited, hw.offset, hw.le, hw.mdts, hw.lease, hw.arrived.keep hk'⟩
  · have hd := h.ready hs
    exact ⟨hd.source, hd.len, hd.arrived.keep hk'⟩

theorem SlotOk.busy (hs : s.state = .executing ∨ s.state = .responding) : SlotOk l t ps s := by
  refine ⟨fun h => ?_, fun h => ?_, fun h => ?_⟩ <;> rw [h] at hs <;> exact absurd hs (by decide)

/-- The payload under way belongs to its command: it came in its capsule, or it is the next
H2CData of a solicited transfer. -/
inductive FillSource (t base : Nat) (kind : PayloadKind) (pdu : DecodedPdu) (ps : List Pdu)
    (s : Slot Sqe) : Prop
  | inCapsule (hk : kind = .inCapsule) (hpdu : pdu.kind = .capsuleCmd s.cmd) (got : ps = [])
      (len : s.dataLen = pdu.dataLen)
  | h2c (last : Bool) (cid : Nat) (hk : kind = .h2c last pdu.dataLen)
      (hpdu : pdu.kind = .h2cData cid t base pdu.dataLen last) (h : Solicited t s ps)

/-- The slot `s` of tag `t` while the payload of the PDU `cur`, decoded as `pdu`, streams into it
from `base` on; `ps` came before. -/
structure Filling (l : Link) (t : Nat) (ps : List Pdu) (s : Slot Sqe) (cur : Pdu)
    (base : Nat) (kind : PayloadKind) (pdu : DecodedPdu) : Prop where
  hdr : HeaderOf cur.hdr pdu
  state : s.state = .receiving
  source : FillSource t base kind pdu ps s
  start : base = (payloads ps).length
  offset : s.recvOffset = base
  fits : base + pdu.dataLen ≤ s.dataLen
  buffer : (∃ segs, s.data = .leased segs ∧ SlotData.LeaseOk s.dataLen segs) ∨
    ∃ b off, s.data = .ring b off pdu.dataLen ∧ s.dataLen = pdu.dataLen ∧ base = 0
  mdts : s.dataLen ≤ mdtsBytes
  arrived : Arrived l s.data (payloads ps ++ cur.payload)

/-- The payload is under way; the phase `d` has accounted for its first `k` bytes. -/
structure DataOk (dd : Bool) (l : Link) (ps : List Pdu) (s : Slot Sqe) (cur : Pdu) (d : DataPhase)
    (k : Nat) (pdu : DecodedPdu) : Prop where
  fill : Filling l d.tag ps s cur d.base d.kind pdu
  count : d.remaining + k = pdu.dataLen
  pos : 0 < d.remaining
  noDigest : cur.digest = []
  ddgst : d.ddgst = (pdu.ddgst && dd)
  crc : d.ddgst = true → d.crc = crc32c (cur.payload.take k)
  retained : d.retained = true → ∃ b off n, s.data = .ring b off n ∧
    ∀ m, l.reader = .ring m → off + pdu.dataLen ≤ m.ring.bufSize
  copied : d.retained = false → ∃ segs, s.data = .leased segs

structure DdgstOk (dd : Bool) (l : Link) (ps : List Pdu) (s : Slot Sqe) (cur : Pdu)
    (g : DdgstPhase) (base : Nat) (pdu : DecodedPdu) : Prop where
  fill : Filling l g.tag ps s cur base g.kind pdu
  full : cur.payload.length = pdu.dataLen
  have_ : g.have_ = cur.digest
  short : cur.digest.length < 4
  expected : g.expected = crc32c cur.payload
  on : (pdu.ddgst && dd) = true

def dataXferStatus : Nat := (Cqe.new 0 0 0 0 (Status.dataXferError ||| Status.dnr)).status

/-- The completions `as` pushed for the command that holds slot `s`, of which `ps` came. -/
structure AnswerOk (dd : Bool) (t : Nat) (ps : List Pdu) (as : List Completion) (s : Slot Sqe) :
    Prop where
  none : s.state ≠ .responding → as = []
  one : s.state = .responding → ∃ c, as = [c] ∧ c.tag = t ∧ c.cqe.cid = s.cmd.cid
  mismatch : dd = true → ∀ p ∈ ps, p.Mismatch → s.state = .responding ∧
    ∃ c, as = [c] ∧ c.cqe.status = dataXferStatus ∧ c.dataLen = 0

theorem AnswerOk.fresh {dd : Bool} (hs : s.state ≠ .responding) : AnswerOk dd t [] [] s :=
  ⟨fun _ => rfl, fun hx => absurd hx hs, fun _ _ hq => absurd hq List.not_mem_nil⟩

theorem AnswerOk.open_ {dd : Bool} {as : List Completion} {s' : Slot Sqe}
    (h : AnswerOk dd t ps as s) (hs : s.state ≠ .responding) (hs' : s'.state ≠ .responding) :
    AnswerOk dd t ps as s' :=
  ⟨fun _ => h.none hs, fun hx => absurd hx hs', fun hd q hq hm => absurd (h.mismatch hd q hq hm).1 hs⟩

/-! ## The phase machine -/

/-- The phase, with `here b o` saying that the next byte of the stream lies in ring buffer `b` at
`o`. -/
def PhaseOk (w : Watched) (here : Nat → Nat → Prop) : Prop :=
  match w.conn.phase with
  | .header => w.cur = ⟨w.conn.decoder.held, [], []⟩
  | .data d => ∃ pdu, DataOk w.conn.dataDigest w.conn.link (w.got d.tag) (w.conn.slot d.tag) w.cur
      d w.cur.payload.length pdu ∧ (d.retained = true → ∀ b off len,
        (w.conn.slot d.tag).data = .ring b off len → here b (off + w.cur.payload.length))
  | .ddgst g => ∃ base pdu, DdgstOk w.conn.dataDigest w.conn.link (w.got g.tag)
      (w.conn.slot g.tag) w.cur g base pdu

/-- The window is the rest of the reader's chunk. -/
def WindowOk (l : Link) (win : Window) : Prop :=
  match l.reader, win with
  | .classic, .scratch _ => True
  | .ring m, .ring b o n => ∃ c, m.cur = some c ∧ c.bid = b ∧ c.off ≤ o ∧ o + n = c.off + c.len
  | _, _ => False

/-- Where the loop stands, the reader's next chunk beginning at `p`. -/
def PcOk (w : Watched) (p : Pos) : Prop :=
  match w.conn.pc with
  | .fill => (∀ m, w.conn.link.reader = .ring m → m.cur = none) ∧
      PhaseOk w fun b o => p = .mid b o
  | .inner win => WindowOk w.conn.link win ∧ PhaseOk w fun b o => ∃ n, win = .ring b o n
  | .awaitTag win sqe dataLen ddgst => WindowOk w.conn.link win ∧ w.conn.phase = .header ∧
      ∃ pdu, HeaderOf w.cur.hdr pdu ∧ pdu.kind = .capsuleCmd sqe ∧ pdu.dataLen = dataLen ∧
        (pdu.ddgst && w.conn.dataDigest) = ddgst ∧ w.cur.payload = [] ∧ w.cur.digest = []
  | .direct d subs iovs => w.conn.link.reader = .classic ∧ w.conn.phase = .data d ∧
      ∃ pdu segs k last len, DataOk w.conn.dataDigest w.conn.link (w.got d.tag)
        (w.conn.slot d.tag) w.cur d k pdu ∧ d.kind = .h2c last len ∧
        (w.conn.slot d.tag).data = .leased segs ∧
        k ≤ w.cur.payload.length ∧ w.cur.payload.length ≤ pdu.dataLen ∧
        Covers (segs.map List.length) subs (d.base + k) d.remaining ∧
        Covers (segs.map List.length) iovs (d.base + w.cur.payload.length)
          (pdu.dataLen - w.cur.payload.length)
  | .ended _ => True
  | .panicked _ => False

def Pc.unread (l : Link) : Pc → List UInt8
  | .inner win => l.bytesOf win
  | .awaitTag win _ _ _ => l.bytesOf win
  | _ => []

def Reader.unread (p : Pos) : Reader → List UInt8
  | .classic => []
  | .ring m => m.ring.content p m.ring.cqes

def Watched.unread (w : Watched) (p : Pos) : List UInt8 :=
  w.conn.pc.unread w.conn.link ++ w.conn.link.reader.unread p

/-- The bytes counted for an accepted PDU: its PLEN, but for a digest that was not negotiated. -/
def Framed (dd : Bool) (p : Pdu) : Prop :=
  p.hdr.length + p.payload.length + p.digest.length + (if p.hasDdgst && !dd then 4 else 0) = p.plen

structure SlotInv (w : Watched) (t : Nat) : Prop where
  idle : w.conn.active ≠ some t → SlotOk w.conn.link t (w.got t) (w.conn.slot t)
  active : w.conn.active = some t → (w.conn.slot t).state = .receiving
  answers : AnswerOk w.conn.dataDigest t (w.got t) (w.answers t) (w.conn.slot t)

/-- The PDU under way has no part yet that the phase does not know of. -/
structure Watched.Parts (w : Watched) : Prop where
  header : w.conn.phase = .header → w.cur.payload = [] ∧ w.cur.digest = []
  data : ∀ d, w.conn.phase = .data d → w.cur.digest = []

structure Inv (w : Watched) (p : Pos) : Prop where
  link : LinkOk w.conn.link p
  decoder : w.conn.decoder.Wf
  open_ : w.conn.decoder.state ≠ .complete
  fresh : w.conn.phase ≠ .header ∨ (∃ win sqe n d, w.conn.pc = .awaitTag win sqe n d) →
    w.conn.decoder.have_ = 0
  slots : ∀ t < w.conn.link.queue.slots.nslots, SlotInv w t
  active : ∀ t, w.conn.active = some t → t < w.conn.link.queue.slots.nslots
  parts : w.Parts
  pc : PcOk w p
  done : ∀ d ∈ w.done, Framed w.conn.dataDigest d
  stream : w.conn.stopped = false → w.consumed ++ w.unread p = w.sent
  seen : w.consumed <+: w.sent

theorem Inv.fill_ok (h : Inv w p) (hc : w.conn.pc = .fill) : PhaseOk w fun b o => p = .mid b o := by
  have hpc := h.pc
  unfold PcOk at hpc
  simp only [hc] at hpc
  exact hpc.2

theorem Inv.inner_ok (h : Inv w p) (hc : w.conn.pc = .inner win) :
    WindowOk w.conn.link win ∧ PhaseOk w fun b o => ∃ n, win = .ring b o n := by
  have hpc := h.pc
  unfold PcOk at hpc
  simpa only [hc] using hpc

/-! ## Bytes and windows -/

theorem Link.bytesOf_drop (l : Link) (win : Window) (n : Nat) :
    l.bytesOf (win.drop n) = (l.bytesOf win).drop n := by
  cases win with
  | scratch bs => rfl
  | ring b o len =>
    unfold Window.drop Link.bytesOf
    cases l.reader with
    | classic => simp
    | ring m => exact (slice_drop _ _ _ _).symm

theorem WindowOk.length {b o n : Nat} (h : WindowOk l (.ring b o n)) (hl : LinkOk l p) :
    (l.bytesOf (.ring b o n)).length = n := by
  unfold WindowOk at h
  cases hr : l.reader with
  | classic => simp [hr] at h
  | ring m =>
    simp only [hr] at h
    obtain ⟨c, hc, rfl, hle, hsum⟩ := h
    obtain ⟨hok, -⟩ := hl.ring m hr
    have h1 := (hok.cur c hc).le
    have h2 := hok.size c.bid
    unfold Link.bytesOf
    simp only [hr, slice, List.length_take, List.length_drop]
    omega

theorem WindowOk.drop {n : Nat} (h : WindowOk l win) (hl : LinkOk l p)
    (hn : n ≤ (l.bytesOf win).length) : WindowOk l (win.drop n) := by
  cases win with
  | scratch bs =>
    unfold WindowOk Window.drop at *
    cases hr : l.reader with
    | classic => trivial
    | ring m => simp [hr] at h
  | ring b o k =>
    rw [h.length hl] at hn
    unfold WindowOk Window.drop at *
    cases hr : l.reader with
    | classic => simp [hr] at h
    | ring m =>
      simp only [hr] at h ⊢
      obtain ⟨c, hc, hb, hle, hsum⟩ := h
      exact ⟨c, hc, hb, by omega, by omega⟩

/-- The reader stands where it stood. -/
def Link.SamePlace (l l' : Link) : Prop :=
  Reader.Rel (fun m m' => m'.cur = m.cur ∧ m'.ring.bufSize = m.ring.bufSize) l.reader l'.reader

theorem Link.Steady.samePlace (h : l.Steady l') : l.SamePlace l' :=
  Reader.Rel.mono (fun h => ⟨h.2, h.1.bufSize⟩) h

theorem WindowOk.samePlace (h : WindowOk l win) (hs : l.SamePlace l') : WindowOk l' win := by
  obtain ⟨q, r⟩ := l
  obtain ⟨q', r'⟩ := l'
  have hr : Reader.Rel _ r r' := hs
  cases hr with
  | classic => exact h
  | ring hr =>
    cases win with
    | scratch bs => exact h
    | ring b o n =>
      obtain ⟨c, hc, hrest⟩ := h
      exact ⟨c, hr.1.trans hc, hrest⟩

/-! ## What the observer notes -/

theorem Watched.note_unfinished (w : Watched) (a : Action) (c' : Conn) (bs : List UInt8)
    (h : c'.between = false ∨ w.conn.taking w.cur bs = .empty) :
    (w.note a c' bs).cur = w.conn.taking w.cur bs ∧ (w.note a c' bs).done = w.done ∧
      ∀ t, (w.note a c' bs).got t = if (c'.slot t).state = .free then [] else w.got t := by
  have hf : (c'.between && w.conn.taking w.cur bs != .empty) = false := by
    rcases h with h | h <;> simp [h]
  refine ⟨?_, ?_, fun t => ?_⟩ <;> simp [Watched.note, hf]

theorem Watched.note_finished (w : Watched) (a : Action) (c' : Conn) (bs : List UInt8)
    (hb : c'.between = true) (hne : w.conn.taking w.cur bs ≠ .empty) :
    (w.note a c' bs).cur = .empty ∧
      (w.note a c' bs).done = w.done ++ [w.conn.taking w.cur bs] ∧
      ∀ t, (w.note a c' bs).got t = if (c'.slot t).state = .free then []
        else if w.conn.active = some t then w.got t ++ [w.conn.taking w.cur bs] else w.got t := by
  have hf : (c'.between && w.conn.taking w.cur bs != .empty) = true := by simp [hb, hne]
  refine ⟨?_, ?_, fun t => ?_⟩ <;> simp [Watched.note, hf]

@[simp] theorem Watched.note_conn (w : Watched) (a : Action) (c' : Conn) (bs : List UInt8) :
    (w.note a c' bs).conn = c' := rfl

@[simp] theorem Watched.note_sent (w : Watched) (a : Action) (c' : Conn) (bs : List UInt8) :
    (w.note a c' bs).sent = w.sent ++ a.received := rfl

theorem Watched.note_consumed (h : w.Parts) (a : Action) (c' : Conn) (bs : List UInt8) :
    (w.note a c' bs).consumed = w.consumed ++ bs := by
  have hbytes : (w.conn.taking w.cur bs).bytes = w.cur.bytes ++ bs := by
    unfold Conn.taking
    cases hph : w.conn.phase with
    | header => simp [Pdu.bytes, h.header hph]
    | data d => simp [Pdu.bytes, h.data d hph]
    | ddgst g => simp [Pdu.bytes]
  have hnil : Pdu.empty.bytes = [] := rfl
  unfold Watched.consumed
  by_cases hf : c'.between = true ∧ w.conn.taking w.cur bs ≠ .empty
  · obtain ⟨h1, h2, -⟩ := w.note_finished a c' bs hf.1 hf.2
    rw [h1, h2, List.flatMap_append, hnil]
    simp [hbytes]
  · have hf' : c'.between = false ∨ w.conn.taking w.cur bs = .empty := by
      by_cases hb : c'.between = true
      · exact .inr (by simpa using fun hne => hf ⟨hb, hne⟩)
      · exact .inl (by simpa using hb)
    obtain ⟨h1, h2, -⟩ := w.note_unfinished a c' bs hf'
    rw [h1, h2, hbytes, List.append_assoc]

end Ioutgt.Tcp
