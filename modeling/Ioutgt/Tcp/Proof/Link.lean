import Ioutgt.Core.Proof.SlotQ
import Ioutgt.Tcp.Recv
import Ioutgt.Uring.Proof.BufRing

/-!
# Slot buffers and the receive ring

Slots hold regions of the receive ring by borrowing its sub-buffers. The ring counts the borrows,
so a buffer a slot still reads from is not given back to the kernel.

* `LinkOk`: the queue's and the ring's invariant, with the ring's counts equal to the number of
  slots that borrow.
* `Arrived`: the bytes a slot's buffer begins with, and that nothing will write over them.
* `LinkOk.setLease`, `LinkOk.retain`, `LinkOk.releaseTag`: what replacing a slot's buffer does.
-/

namespace Ioutgt.Tcp

open Lib Ioutgt.Core Ioutgt.Nvme Ioutgt.Uring

variable {b : Nat} {s : Slot Sqe} {l l' : Link} {q : NvmeTcpQueue}

def borrows (b : Nat) (s : Slot Sqe) : Bool :=
  match s.data with
  | .ring b' _ _ => b' == b
  | _ => false

theorem borrows_eq_true : borrows b s = true ↔ ∃ off len, s.data = .ring b off len := by
  unfold borrows
  cases hd : s.data <;> simp

/-! ## The queue's operations -/

namespace NvmeTcpQueue

variable {ε : Type} {q : NvmeTcpQueue} {t : Nat}

def withSlot (q : NvmeTcpQueue) (t : Nat) (s : Slot Sqe) : NvmeTcpQueue :=
  { q with slots := q.slots.put t s }

theorem modifySlot_ok (ht : t < q.slots.nslots) (f : Slot Sqe → Slot Sqe) :
    (q.modifySlot t f : Checked ε _) = .ok (q.withSlot t (f (q.slots.slots t))) := by
  rw [modifySlot, SlotArray.slot_ok ht]
  rfl

theorem stashCmd_ok (ht : t < q.slots.nslots) (hs : (q.slots.slots t).state = .receiving)
    (cmd : Sqe) :
    (q.stashCmd t cmd : Checked ε _) = .ok (q.withSlot t { q.slots.slots t with cmd }) := by
  rw [stashCmd, SlotArray.slot_ok ht, Checked.bind_ok, Checked.require_ok _ hs, Checked.bind_ok,
    modifySlot_ok ht]

theorem submit_ok (ht : t < q.slots.nslots) (hs : (q.slots.slots t).state = .receiving)
    (cmd : Sqe) :
    (q.submit t cmd : Checked ε _) = .ok { q.withSlot t { q.slots.slots t with
      cmd, state := .ready } with traffic := true } := by
  rw [submit, SlotArray.submit_ok ht hs]
  rfl

theorem solicit_ok (ht : t < q.slots.nslots) (hs : (q.slots.slots t).state = .receiving)
    (cid offset length : Nat) :
    (q.solicit t cid offset length : Checked ε _) = .ok (q.push (.r2t t cid offset length)) := by
  rw [solicit, SlotArray.slot_ok ht, Checked.bind_ok, Checked.require_ok _ hs]
  rfl

theorem completeReceiving_ok (ht : t < q.slots.nslots)
    (hs : (q.slots.slots t).state = .receiving) (cqe : Cqe) :
    (q.completeReceiving t cqe : Checked ε _) = .ok ((q.withSlot t { q.slots.slots t with
      state := .responding }).push (.response { tag := t, cqe, dataLen := 0 })) := by
  rw [completeReceiving, SlotArray.respondReceiving_ok ht hs]
  rfl

def nextSqhd (q : NvmeTcpQueue) : Nat :=
  if q.cfg.sqhdDisabled then 0 else (q.sqhd + 1) % q.cfg.sqsize

theorem advanceSqhd_ok (h : q.sqhd < q.cfg.sqsize) :
    ∃ n, (q.advanceSqhd : Checked ε _) = .ok (q.nextSqhd, { q with sqhd := n }) ∧
      n < q.cfg.sqsize := by
  unfold advanceSqhd nextSqhd
  cases hd : q.cfg.sqhdDisabled with
  | true => exact ⟨q.sqhd, rfl, h⟩
  | false =>
    have hlt := q.cfg.sqsize_lt
    rw [Checked.add_ok (by omega)]
    exact ⟨_, rfl, Nat.mod_lt _ q.cfg.sqsize_pos⟩

@[simp] theorem withSlot_send (q : NvmeTcpQueue) (t : Nat) (s : Slot Sqe) :
    (q.withSlot t s).send = q.send := rfl

@[simp] theorem withSlot_self (q : NvmeTcpQueue) (t : Nat) (s : Slot Sqe) :
    (q.withSlot t s).slots.slots t = s := SlotArray.put_self _ _ _

@[simp] theorem withSlot_withSlot (q : NvmeTcpQueue) (t : Nat) (s s' : Slot Sqe) :
    (q.withSlot t s).withSlot t s' = q.withSlot t s' := by
  simp [withSlot, SlotArray.put_put]

theorem withSlot_eq_self (q : NvmeTcpQueue) (t : Nat) :
    q.withSlot t (q.slots.slots t) = q := by
  simp [withSlot, SlotArray.put]

end NvmeTcpQueue

/-! ## The invariant -/

/-- The queue and its reader, which stands at `p` once it is through with its chunk. -/
structure LinkOk (l : Link) (p : Pos) : Prop where
  slots : l.queue.slots.Wf
  nslots : l.queue.slots.nslots = l.queue.cfg.sqsize
  sqhd : l.queue.sqhd < l.queue.cfg.sqsize
  ring : ∀ m, l.reader = .ring m → RingOk m p ∧ ∀ b, (m.ring.bufs b).pending
    = tally l.queue.slots.nslots (borrows b) l.queue.slots.slots
  classic : l.reader = .classic → ∀ t < l.queue.slots.nslots, ∀ b,
    borrows b (l.queue.slots.slots t) = false

/-- Readers of one kind, with `R` between their rings. -/
inductive Reader.Rel (R : RingMode → RingMode → Prop) : Reader → Reader → Prop
  | classic : Rel R .classic .classic
  | ring {m m' : RingMode} (h : R m m') : Rel R (.ring m) (.ring m')

namespace Reader.Rel

variable {R R' : RingMode → RingMode → Prop} {r r' : Reader}

theorem of_eq (hrefl : ∀ m, R m m) (h : r' = r) : Rel R r r' := by
  subst h
  cases r' with
  | classic => exact .classic
  | ring m => exact .ring (hrefl m)

theorem mono (himp : ∀ {m m'}, R m m' → R' m m') (h : Rel R r r') : Rel R' r r' := by
  cases h with
  | classic => exact .classic
  | ring h => exact .ring (himp h)

theorem of_ring {m' : RingMode} (h : Rel R r r') (hr : r' = .ring m') :
    ∃ m, r = .ring m ∧ R m m' := by
  subst hr
  cases h with
  | ring h => exact ⟨_, rfl, h⟩

theorem of_classic (h : Rel R r r') (hr : r = .classic) : r' = .classic := by
  subst hr
  cases h
  rfl

end Reader.Rel

/-- From `l` to `l'`, what was settled of the ring's buffer `b` is settled and unchanged. -/
def Link.Keeps (l l' : Link) (b : Nat) : Prop :=
  Reader.Rel (fun m m' => KeepsAt m.ring m'.ring b) l.reader l'.reader

theorem Link.Keeps.of_reader (h : l'.reader = l.reader) (b : Nat) : l.Keeps l' b :=
  .of_eq (fun _ => .of_same rfl rfl rfl) h

/-- The buffer `d` begins with `bs`, and nothing will write over them while it is held. -/
structure Arrived (l : Link) (d : SlotData) (bs : List UInt8) : Prop where
  bytes : (l.dataOf d).take bs.length = bs
  settled : ∀ m b off len, l.reader = .ring m → d = .ring b off len →
    m.ring.Settled b (off + bs.length)

theorem Arrived.nil_leased (l : Link) (segs : List (List UInt8)) :
    Arrived l (.leased segs) [] := ⟨rfl, fun _ _ _ _ _ h => by cases h⟩

theorem slice_take_min (mem : List UInt8) (off len n : Nat) :
    (slice mem off len).take n = slice mem off (min n len) := by
  simp [slice, List.take_take]

theorem Arrived.keep {d : SlotData} {bs : List UInt8} (h : Arrived l d bs)
    (hk : ∀ b off len, d = .ring b off len → l.Keeps l' b) : Arrived l' d bs := by
  cases d with
  | empty => exact ⟨h.bytes, fun _ _ _ _ _ hd => by cases hd⟩
  | leased segs => exact ⟨h.bytes, fun _ _ _ _ _ hd => by cases hd⟩
  | ring b off len =>
    obtain ⟨q, r⟩ := l
    obtain ⟨q', r'⟩ := l'
    have hkeep : Reader.Rel _ r r' := hk b off len rfl
    cases hkeep with
    | classic => exact ⟨h.bytes, fun _ _ _ _ hr => nomatch hr⟩
    | @ring m m' hkeep =>
      obtain ⟨hset, hmem⟩ := hkeep _ (h.settled m b off len rfl rfl)
      refine ⟨?_, fun _ _ _ _ hr hd => ?_⟩
      · have hbytes : (slice (m.ring.bufs b).mem off len).take bs.length = bs := h.bytes
        show (slice (m'.ring.bufs b).mem off len).take bs.length = bs
        rw [slice_take_min] at hbytes ⊢
        rw [hmem off (min bs.length len) (by omega), hbytes]
      · cases hr
        cases hd
        exact hset

/-- From `l` to `l'` the reader sees the same bytes: its chunk, the pending completions and the
buffers' memory are as they were. -/
def Link.Steady (l l' : Link) : Prop :=
  Reader.Rel (fun m m' => Uring.Steady m.ring m'.ring ∧ m'.cur = m.cur) l.reader l'.reader

theorem Link.Steady.of_reader (h : l'.reader = l.reader) : l.Steady l' :=
  .of_eq (fun _ => ⟨.refl _, rfl⟩) h

theorem Link.Steady.bytesOf (h : l.Steady l') (w : Window) : l'.bytesOf w = l.bytesOf w := by
  cases w with
  | scratch bs => rfl
  | ring bid off len =>
    obtain ⟨q, r⟩ := l
    obtain ⟨q', r'⟩ := l'
    have hs : Reader.Rel _ r r' := h
    cases hs with
    | classic => rfl
    | @ring m m' hs =>
      show slice (m'.ring.bufs bid).mem off len = slice (m.ring.bufs bid).mem off len
      rw [hs.1.mem]

namespace LinkOk

variable {l : Link} {p : Pos} {t : Nat}

theorem pending_pos {m : RingMode} (h : LinkOk l p) (hr : l.reader = .ring m)
    (ht : t < l.queue.slots.nslots) (hb : borrows b (l.queue.slots.slots t) = true) :
    0 < (m.ring.bufs b).pending := by
  rw [(h.ring m hr).2 b]
  exact tally_pos ht hb

theorem keeps (h : LinkOk l' p) (hs : l.Steady l') (ht : t < l'.queue.slots.nslots)
    (hb : borrows b (l'.queue.slots.slots t) = true) : l.Keeps l' b := by
  obtain ⟨q, r⟩ := l
  obtain ⟨q', r'⟩ := l'
  have hrel : Reader.Rel _ r r' := hs
  cases hrel with
  | classic => exact .classic
  | ring hst => exact .ring (hst.1.keepsAt (h.pending_pos rfl ht hb))

theorem of_queue (h : LinkOk l p) (hcfg : q.cfg = l.queue.cfg) (hsq : q.sqhd < q.cfg.sqsize)
    (hw : q.slots.Wf) (hn : q.slots.nslots = l.queue.slots.nslots)
    (hb : ∀ t < l.queue.slots.nslots, ∀ b,
      borrows b (q.slots.slots t) = borrows b (l.queue.slots.slots t)) :
    LinkOk { l with queue := q } p where
  slots := hw
  nslots := by rw [hcfg]; exact hn.trans h.nslots
  sqhd := hsq
  ring := by
    intro m hm
    obtain ⟨hr, hp⟩ := h.ring m hm
    refine ⟨hr, fun b => ?_⟩
    rw [hp b]
    dsimp only
    rw [hn]
    exact tally_congr fun i hi => (hb i hi b).symm
  classic := by
    intro hc u hu b
    dsimp only at hu ⊢
    rw [hn] at hu
    rw [hb u hu b]
    exact h.classic hc u hu b

theorem of_ring {m m' : RingMode} {p' : Pos} (h : LinkOk l p) (hr : l.reader = .ring m)
    (hok : RingOk m' p')
    (hpend : ∀ b, (m'.ring.bufs b).pending = (m.ring.bufs b).pending) :
    LinkOk { l with reader := .ring m' } p' := by
  refine ⟨h.slots, h.nslots, h.sqhd, fun m'' hm => ?_, fun hc => nomatch hc⟩
  obtain rfl := Reader.ring.inj hm
  exact ⟨hok, fun b => (hpend b).trans ((h.ring m hr).2 b)⟩

theorem drop_unborrowed (h : LinkOk l p) (ε : Type) (hcfg : q.cfg = l.queue.cfg)
    (hsq : q.sqhd < q.cfg.sqsize) (hw : q.slots.Wf) (hn : q.slots.nslots = l.queue.slots.nslots)
    (hq : q.slots.slots = Function.update l.queue.slots.slots t s) (hs : ∀ b, borrows b s = false)
    (ht : ∀ b, borrows b (l.queue.slots.slots t) = false) :
    ({ l with queue := q }.dropData (l.queue.slots.slots t).data : Checked ε Link)
      = .ok { l with queue := q } ∧ LinkOk { l with queue := q } p := by
  refine ⟨?_, h.of_queue hcfg hsq hw hn ?_⟩
  · unfold Link.dropData
    cases hd : (l.queue.slots.slots t).data with
    | empty => rfl
    | leased segs => rfl
    | ring b off len =>
      have := ht b
      rw [borrows_eq_true.2 ⟨off, len, hd⟩] at this
      cases this
  · intro u _ b
    rw [hq]
    by_cases hu : u = t
    · rw [hu, Function.update_self, hs, ht]
    · rw [Function.update_of_ne hu]

theorem drop (h : LinkOk l p) (ε : Type) (ht : t < l.queue.slots.nslots)
    (hcfg : q.cfg = l.queue.cfg) (hsq : q.sqhd < q.cfg.sqsize) (hw : q.slots.Wf)
    (hn : q.slots.nslots = l.queue.slots.nslots)
    (hq : q.slots.slots = Function.update l.queue.slots.slots t s) (hs : ∀ b, borrows b s = false) :
    ∃ l', ({ l with queue := q }.dropData (l.queue.slots.slots t).data : Checked ε Link) = .ok l' ∧
      LinkOk l' p ∧ l'.queue = q ∧ l.Steady l' := by
  by_cases hb : ∃ b, borrows b (l.queue.slots.slots t) = true
  swap
  · have hb' : ∀ b, borrows b (l.queue.slots.slots t) = false := by simpa using hb
    obtain ⟨hdrop, hok⟩ := h.drop_unborrowed ε hcfg hsq hw hn hq hs hb'
    exact ⟨_, hdrop, hok, rfl, .of_reader rfl⟩
  obtain ⟨b, hbt⟩ := hb
  obtain ⟨off, len, hd⟩ := borrows_eq_true.1 hbt
  cases hr : l.reader with
  | classic =>
    have := h.classic hr t ht b
    rw [hbt] at this
    cases this
  | ring m =>
    obtain ⟨hok, hpend⟩ := h.ring m hr
    obtain ⟨r, hrel, hok', hst, hpd⟩ := hok.release ε (h.pending_pos hr ht hbt)
    refine ⟨{ queue := q, reader := .ring { m with ring := r } }, ?_,
      ⟨hw, by rw [hcfg]; exact hn.trans h.nslots, hsq, ?_, fun hc => by cases hc⟩, rfl, ?_⟩
    · unfold Link.dropData
      simp only [hd, hrel, Checked.bind_ok]
      rfl
    · intro m' hm'
      obtain rfl := Reader.ring.inj hm'
      refine ⟨hok', fun c => ?_⟩
      -- one borrow less of `b`, in the ring's count as among the slots
      have h1 := hpd c
      have h2 := tally_update (borrows c) l.queue.slots.slots t s ht
      have h3 := hpend c
      have h4 : (if borrows c (l.queue.slots.slots t) then 1 else 0) = if c = b then 1 else 0 := by
        unfold borrows
        rw [hd]
        by_cases hcb : c = b
        · simp [hcb]
        · simp [hcb, Ne.symm hcb]
      dsimp only
      rw [hq, hn]
      rw [h4, hs c] at h2
      simp only [Bool.false_eq_true, ↓reduceIte, Nat.add_zero] at h2
      omega
    · rw [Link.Steady, hr]
      exact .ring ⟨hst, rfl⟩

theorem setLease (h : LinkOk l p) (ε : Type) (ht : t < l.queue.slots.nslots) (segs : List (List UInt8)) :
    ∃ l', (l.setData t (.leased segs) : Checked ε Link) = .ok l' ∧ LinkOk l' p ∧
      l'.queue = l.queue.withSlot t { l.queue.slots.slots t with data := .leased segs } ∧
      l.Steady l' := by
  rw [Link.setData, SlotArray.slot_ok ht, Checked.bind_ok, NvmeTcpQueue.modifySlot_ok ht,
    Checked.bind_ok]
  exact h.drop ε ht (s := { l.queue.slots.slots t with data := .leased segs }) rfl h.sqhd
    (h.slots.put_same ht rfl) rfl rfl fun _ => rfl

theorem releaseTag (h : LinkOk l p) (ε : Type) (ht : t < l.queue.slots.nslots)
    (hs : (l.queue.slots.slots t).state = .responding) :
    ∃ l', (l.releaseTag t : Checked ε Link) = .ok l' ∧ LinkOk l' p ∧
      l'.queue = { l.queue with slots := l.queue.slots.released t } ∧ l.Steady l' := by
  rw [Link.releaseTag, SlotArray.releaseTag_ok ht hs, Checked.bind_ok]
  exact h.drop ε ht (s := { l.queue.slots.slots t with data := .empty, state := .free }) rfl h.sqhd
    (h.slots.released ht hs) rfl rfl fun _ => rfl

/-- What retaining a payload in place has done. -/
structure Retained (l : Link) (p : Pos) (w : Window) (t len : Nat) (l' : Link) : Prop where
  ok : LinkOk l' p
  place : ∃ m b off n, l.reader = .ring m ∧ w = .ring b off n ∧ off + len ≤ m.ring.bufSize ∧
    l'.queue = l.queue.withSlot t { l.queue.slots.slots t with data := .ring b off len }
  steady : l.Steady l'

theorem retain (h : LinkOk l p) (ε : Type) (ht : t < l.queue.slots.nslots) (w : Window) (len : Nat)
    (hfree : ∀ b, borrows b (l.queue.slots.slots t) = false) :
    (l.tryRetainPayload w t len : Checked ε _) = .ok (l, false) ∨
      ∃ l', (l.tryRetainPayload w t len : Checked ε _) = .ok (l', true) ∧
        Retained l p w t len l' := by
  unfold Link.tryRetainPayload
  split
  swap
  · exact .inl rfl
  rename_i m bid off n hr
  dsimp only
  split
  · exact .inl rfl
  rename_i hfit
  obtain ⟨hok, hpend⟩ := h.ring m hr
  let q := l.queue.withSlot t { l.queue.slots.slots t with data := .ring bid off len }
  refine .inr ⟨⟨q, .ring { m with ring := m.ring.borrow bid }⟩, ?_, ?_, ?_, ?_⟩
  · rw [Link.setData, SlotArray.slot_ok ht, Checked.bind_ok, NvmeTcpQueue.modifySlot_ok ht,
      Checked.bind_ok]
    unfold Link.dropData
    cases hd : (l.queue.slots.slots t).data with
    | empty => rfl
    | leased segs => rfl
    | ring b o k =>
      have := hfree b
      rw [borrows_eq_true.2 ⟨o, k, hd⟩] at this
      cases this
  · refine ⟨h.slots.put_same ht rfl, h.nslots, h.sqhd, ?_, fun hc => by cases hc⟩
    intro m' hm'
    obtain rfl := Reader.ring.inj hm'
    refine ⟨hok.borrow bid, fun c => ?_⟩
    have h1 := tally_update (borrows c) l.queue.slots.slots t
      { l.queue.slots.slots t with data := .ring bid off len } ht
    have h2 : (if borrows c { l.queue.slots.slots t with data := .ring bid off len } then 1 else 0)
        = if c = bid then 1 else 0 := by
      by_cases hcb : c = bid
      · simp [borrows, hcb]
      · simp [borrows, hcb, Ne.symm hcb]
    rw [hfree c, h2, ← hpend c] at h1
    have h3 := RingOk.borrow_pending m.ring bid c
    show ((m.ring.borrow bid).bufs c).pending = tally l.queue.slots.nslots (borrows c)
      (Function.update l.queue.slots.slots t _)
    simp only [Bool.false_eq_true, ↓reduceIte, Nat.add_zero] at h1
    rw [h3, h1]
  · exact ⟨m, bid, off, n, hr, rfl, by omega, rfl⟩
  · rw [Link.Steady, hr]
    exact .ring ⟨RingOk.borrow_steady m.ring bid, rfl⟩

end LinkOk

end Ioutgt.Tcp
