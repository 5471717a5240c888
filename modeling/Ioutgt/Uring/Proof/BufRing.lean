import Ioutgt.Lib.Run
import Ioutgt.Uring.BufRing

/-!
# The receive ring delivers the stream

The ring as a byte queue: what the kernel wrote and the reader has not seen is a sequence of
regions of the sub-buffers (`content`), the kernel appends to it and the reader takes from its
front, and no region that is unread or borrowed is written again.

* `Pos`, `Chain`: where the reader stands, and that the pending completions lead from there to
  where the kernel stands.
* `RingOk`: the ring's invariant.
* `Settled`: the part of a buffer that the kernel will not write again before it is given back.
* `RingOk.kernelFill`, `RingOk.retire`, `RingOk.observe`, `RingOk.borrow`, `RingOk.release`: each
  operation keeps the invariant.
-/

namespace Ioutgt.Uring

open Lib

variable {size b : Nat} {c : RecvChunk} {r r' : BufRing} {p : Pos}

/-! ## Positions -/

/-- Where the next byte of the stream lies: at the start of a buffer, or further on in `bid`. -/
inductive Pos where
  | boundary
  | mid (bid off : Nat)
  deriving DecidableEq

namespace Pos

def off : Pos → Nat
  | boundary => 0
  | mid _ o => o

def offIn : Pos → Nat → Nat
  | boundary, _ => 0
  | mid b' o, b => if b' = b then o else 0

def next (p : Pos) (c : RecvChunk) : Pos :=
  if c.bufMore then mid c.bid (p.off + c.len) else boundary

end Pos

/-- `c` is a chunk the kernel may deliver at `p`. -/
structure Fits (size : Nat) (p : Pos) (c : RecvChunk) : Prop where
  pos : 0 < c.len
  bid : ∀ b o, p = .mid b o → c.bid = b
  le : p.off + c.len ≤ size
  more : c.bufMore = true ↔ p.off + c.len < size

def Chain (size : Nat) : Pos → List RecvChunk → Pos → Prop
  | p, [], k => p = k
  | p, c :: cs, k => Fits size p c ∧ Chain size (p.next c) cs k

theorem Chain.snoc :
    ∀ {cs : List RecvChunk} {p k : Pos}, Chain size p cs k → Fits size k c →
      Chain size p (cs ++ [c]) (k.next c)
  | [], p, k, h, hc => by
    obtain rfl : p = k := h
    exact ⟨hc, rfl⟩
  | d :: cs, p, k, h, hc => ⟨h.1, Chain.snoc h.2 hc⟩

def closed (cs : List RecvChunk) : List Nat := (cs.filter (!·.bufMore)).map (·.bid)

@[simp] theorem closed_nil : closed [] = [] := rfl

theorem closed_cons (c : RecvChunk) (cs : List RecvChunk) :
    closed (c :: cs) = if c.bufMore then closed cs else c.bid :: closed cs := by
  cases h : c.bufMore <;> simp [closed, h]

theorem closed_append (cs ds : List RecvChunk) : closed (cs ++ ds) = closed cs ++ closed ds := by
  simp [closed]

namespace BufRing

def kpos (r : BufRing) : Pos :=
  match r.provided with
  | [] => .boundary
  | b :: _ => if r.filled = 0 then .boundary else .mid b r.filled

/-- The bytes of the chunks `cs`, of which the first begins at `p`. -/
def content (r : BufRing) : Pos → List RecvChunk → List UInt8
  | _, [] => []
  | p, c :: cs => slice (r.bufs c.bid).mem p.off c.len ++ content r (p.next c) cs

/-- The kernel will not write buffer `b` below `upto` before the buffer is given back to it. -/
def Settled (r : BufRing) (b upto : Nat) : Prop :=
  b ∈ r.provided → r.provided.head? = some b ∧ upto ≤ r.filled

theorem Settled.mono {n k : Nat} (h : r.Settled b n) (hk : k ≤ n) : r.Settled b k :=
  fun hb => ⟨(h hb).1, by have := (h hb).2; omega⟩

def reprovided (r : BufRing) (b : Nat) : BufRing :=
  { r.put b { r.bufs b with awaiting := false, recvOff := 0 } with
    provided := r.provided ++ [b] }

theorem kpos_eq_mid {o : Nat} (h : r.kpos = .mid b o) :
    r.provided.head? = some b ∧ r.filled = o := by
  unfold kpos at h
  split at h
  · cases h
  · rename_i hp
    split at h
    · cases h
    · cases h
      exact ⟨by rw [hp]; rfl, rfl⟩

end BufRing

section
variable {size : Nat} {r : BufRing}

/-- A buffer the reader is in the middle of has not been given up by the kernel, or is one of
those the pending chunks fill up. -/
theorem Chain.mid_mem :
    ∀ {cs : List RecvChunk} {b o : Nat}, Chain size (.mid b o) cs r.kpos →
      b ∈ closed cs ++ r.provided
  | [], b, o, h => by
    obtain ⟨hh, -⟩ := BufRing.kpos_eq_mid (Eq.symm h)
    exact List.mem_append_right _ (List.mem_of_mem_head? hh)
  | c :: cs, b, o, h => by
    obtain ⟨hc, ht⟩ := h
    have hb : c.bid = b := hc.bid b o rfl
    rw [closed_cons]
    cases hm : c.bufMore with
    | false => simp [hb]
    | true =>
      rw [Pos.next, if_pos hm, hb] at ht
      simpa using Chain.mid_mem ht

theorem Chain.bid_mem :
    ∀ {cs : List RecvChunk} {p : Pos} {c : RecvChunk}, Chain size p cs r.kpos → c ∈ cs →
      c.bid ∈ closed cs ++ r.provided
  | d :: cs, p, c, h, hc => by
    obtain ⟨hd, ht⟩ := h
    rw [closed_cons]
    rcases List.mem_cons.1 hc with rfl | hc
    · cases hm : c.bufMore with
      | false => simp
      | true =>
        rw [Pos.next, if_pos hm] at ht
        simpa using Chain.mid_mem ht
    · have := Chain.bid_mem ht hc
      split
      · exact this
      · exact List.mem_cons_of_mem _ this

theorem Chain.settled :
    ∀ {cs : List RecvChunk} {b o : Nat}, Chain size (.mid b o) cs r.kpos →
      (closed cs ++ r.provided).Nodup → r.Settled b o
  | [], b, o, h, _ => by
    obtain ⟨hh, rfl⟩ := BufRing.kpos_eq_mid (Eq.symm h)
    exact fun _ => ⟨hh, Nat.le_refl _⟩
  | c :: cs, b, o, h, hn => by
    obtain ⟨hc, ht⟩ := h
    have hb : c.bid = b := hc.bid b o rfl
    rw [closed_cons] at hn
    cases hm : c.bufMore with
    | false =>
      rw [hm, hb] at hn
      have hnot := (List.nodup_cons.1 hn).1
      exact fun hmem => absurd (List.mem_append_right _ hmem) hnot
    | true =>
      rw [Pos.next, if_pos hm, hb] at ht
      rw [hm] at hn
      exact (Chain.settled ht hn).mono (by simp [Pos.off])

theorem Fits.settled {cs : List RecvChunk} (_ : Fits size p c)
    (ht : Chain size (p.next c) cs r.kpos) (hn : (closed (c :: cs) ++ r.provided).Nodup) :
    r.Settled c.bid (p.off + c.len) := by
  rw [closed_cons] at hn
  cases hm : c.bufMore with
  | false =>
    rw [hm] at hn
    have hnot := (List.nodup_cons.1 hn).1
    exact fun hmem => absurd (List.mem_append_right _ hmem) hnot
  | true =>
    rw [Pos.next, if_pos hm] at ht
    rw [hm] at hn
    exact Chain.settled ht hn

theorem content_congr {r' : BufRing}
    (hmem : ∀ b o l, r.Settled b (o + l) → slice (r'.bufs b).mem o l = slice (r.bufs b).mem o l) :
    ∀ {cs : List RecvChunk} {p : Pos}, Chain size p cs r.kpos →
      (closed cs ++ r.provided).Nodup → r'.content p cs = r.content p cs
  | [], _, _, _ => rfl
  | c :: cs, p, h, hn => by
    have hset := h.1.settled h.2 hn
    have hn' : (closed cs ++ r.provided).Nodup := by
      rw [closed_cons] at hn
      split at hn
      · exact hn
      · exact (List.nodup_cons.1 hn).2
    rw [BufRing.content, BufRing.content, hmem _ _ _ hset, content_congr hmem h.2 hn']

theorem content_snoc (c : RecvChunk) :
    ∀ {cs : List RecvChunk} {p k : Pos}, Chain size p cs k →
      r.content p (cs ++ [c]) = r.content p cs ++ slice (r.bufs c.bid).mem k.off c.len
  | [], p, k, h => by
    obtain rfl : p = k := h
    simp [BufRing.content]
  | d :: cs, p, k, h => by
    rw [List.cons_append, BufRing.content, BufRing.content, content_snoc c h.2, List.append_assoc]

theorem content_mem {r' : BufRing} (hmem : ∀ b, (r'.bufs b).mem = (r.bufs b).mem) :
    ∀ (cs : List RecvChunk) (p : Pos), r'.content p cs = r.content p cs
  | [], _ => rfl
  | c :: cs, p => by rw [BufRing.content, BufRing.content, hmem, content_mem hmem cs]

end

/-! ## The invariant -/

/-- The reader's chunk, when `p` is the position behind it. -/
structure CurOk (size : Nat) (p : Pos) (c : Cur) : Prop where
  pos : 0 < c.len
  le : c.off + c.len ≤ size
  more : c.bufMore = true → p = .mid c.bid (c.off + c.len) ∧ c.off + c.len < size
  full : c.bufMore = false → p = .boundary ∧ c.off + c.len = size

def RingMode.held (m : RingMode) : List Nat :=
  match m.cur with
  | some c => if c.bufMore then [] else [c.bid]
  | none => []

/-- The ring, its reader standing at `p` once it is through with its chunk. -/
structure RingOk (m : RingMode) (p : Pos) : Prop where
  size : ∀ b, (m.ring.bufs b).mem.length = m.ring.bufSize
  room : m.ring.filled < m.ring.bufSize
  dry : m.ring.provided = [] → m.ring.filled = 0
  chain : Chain m.ring.bufSize p m.ring.cqes m.ring.kpos
  cur : ∀ c, m.cur = some c → CurOk m.ring.bufSize p c
  owned : (m.held ++ (closed m.ring.cqes ++ m.ring.provided)).Nodup
  quiet : ∀ b ∈ m.held ++ (closed m.ring.cqes ++ m.ring.provided), (m.ring.bufs b).awaiting = false
  offs : ∀ b ∈ closed m.ring.cqes ++ m.ring.provided, (m.ring.bufs b).recvOff = p.offIn b

/-- From `r` to `r'`, what was settled of buffer `b` is settled and unchanged. -/
def KeepsAt (r r' : BufRing) (b : Nat) : Prop :=
  ∀ n, r.Settled b n → r'.Settled b n ∧
    ∀ o l, o + l ≤ n → slice (r'.bufs b).mem o l = slice (r.bufs b).mem o l

theorem KeepsAt.of_same (hp : r'.provided = r.provided) (hf : r'.filled = r.filled)
    (hm : (r'.bufs b).mem = (r.bufs b).mem) : KeepsAt r r' b := by
  intro n hn
  refine ⟨?_, fun o l _ => by rw [hm]⟩
  intro hb
  rw [hp] at hb ⊢
  rw [hf]
  exact hn hb

theorem RingOk.new (h : 0 < size) : RingOk ⟨BufRing.new size, none⟩ .boundary where
  size := fun b => by simp [BufRing.new]
  room := h
  dry := fun _ => rfl
  chain := rfl
  cur := fun c hc => by cases hc
  owned := by simp [BufRing.new, RingMode.held, List.nodup_range]
  quiet := fun _ _ => rfl
  offs := fun _ _ => rfl

theorem RingOk.nodup {m : RingMode} (h : RingOk m p) :
    (closed m.ring.cqes ++ m.ring.provided).Nodup := (List.nodup_append.1 h.owned).2.1

/-! ## The kernel's side -/

theorem slice_blit {mem bs : List UInt8} {off : Nat} (h : off ≤ mem.length) :
    slice (blit mem off bs) off bs.length = bs := by
  have hl : (mem.take off).length = off := by simp [h]
  rw [slice, blit, List.append_assoc, List.drop_left' hl, List.take_left]

theorem slice_blit_below {mem bs : List UInt8} {off o l : Nat} (h : o + l ≤ off)
    (hoff : off ≤ mem.length) : slice (blit mem off bs) o l = slice mem o l := by
  have hl : (mem.take off).length = off := by simp [hoff]
  have htake : (blit mem off bs).take off = mem.take off := by
    rw [blit, List.append_assoc, List.take_left' hl]
  rw [← slice_take h, htake, slice_take h]

theorem BufRing.kernelFill_eq {bs : List UInt8} (hk : r.kernelFill bs = some r') :
    ∃ bid rest, r.provided = bid :: rest ∧ bs ≠ [] ∧ r.filled + bs.length ≤ r.bufSize ∧
      r' = r.fillHead bid rest bs := by
  unfold BufRing.kernelFill at hk
  split at hk
  · cases hk
  · rename_i bid rest hprov
    obtain ⟨hbs, h⟩ := of_guard hk
    exact ⟨bid, rest, hprov, hbs.1, hbs.2, h.symm⟩

namespace RingOk

variable {m : RingMode} {p : Pos}

theorem kpos_off (h : RingOk m p) : m.ring.kpos.off = m.ring.filled := by
  unfold BufRing.kpos
  split
  · rename_i hp
    rw [h.dry hp]
    rfl
  · split
    · rename_i h0
      rw [h0]
      rfl
    · rfl

section
variable {bid : Nat} {rest : List Nat} {bs : List UInt8}

theorem fillHead_owned (hprov : m.ring.provided = bid :: rest) :
    closed (m.ring.fillHead bid rest bs).cqes ++ (m.ring.fillHead bid rest bs).provided
      = closed m.ring.cqes ++ m.ring.provided := by
  dsimp only [BufRing.fillHead]
  rw [closed_append, hprov]
  cases m.ring.filled + bs.length == m.ring.bufSize <;> simp [closed]

theorem fillHead_bufs (r : BufRing) (b : Nat) :
    (r.fillHead bid rest bs).bufs b = { r.bufs b with
      mem := if b = bid then blit (r.bufs b).mem r.filled bs else (r.bufs b).mem } := by
  by_cases hb : b = bid
  · subst hb
    simp [BufRing.fillHead, BufRing.put]
  · simp [BufRing.fillHead, BufRing.put, hb]

theorem fillHead_keepsAt (h : RingOk m p) (hprov : m.ring.provided = bid :: rest) (b : Nat) :
    KeepsAt m.ring (m.ring.fillHead bid rest bs) b := by
  have hroom := h.room
  intro n hn
  constructor
  · intro hb
    dsimp only [BufRing.fillHead] at hb ⊢
    cases hf : (m.ring.filled + bs.length == m.ring.bufSize) with
    | true =>
      -- the buffer is full and gone: `b` would be in the queue twice
      simp only [hf, ↓reduceIte] at hb
      have hh := (hn (by rw [hprov]; exact List.mem_cons_of_mem _ hb)).1
      rw [hprov] at hh
      obtain rfl := Option.some.inj hh
      have hnd := (List.nodup_append.1 h.nodup).2.1
      rw [hprov] at hnd
      exact absurd hb (List.nodup_cons.1 hnd).1
    | false =>
      simp only [hf, Bool.false_eq_true, ↓reduceIte] at hb ⊢
      rw [← hprov] at hb ⊢
      have := hn hb
      exact ⟨this.1, by omega⟩
  · intro o l hol
    rw [fillHead_bufs]
    dsimp only
    split
    · rename_i hb
      have := (hn (by rw [hprov, hb]; exact List.mem_cons_self)).2
      exact slice_blit_below (by omega) (by rw [h.size]; omega)
    · rfl

theorem fillHead_fits (h : RingOk m p) (hprov : m.ring.provided = bid :: rest) (hne : bs ≠ [])
    (hle : m.ring.filled + bs.length ≤ m.ring.bufSize) :
    Fits m.ring.bufSize m.ring.kpos
      ⟨bid, bs.length, !(m.ring.filled + bs.length == m.ring.bufSize)⟩ where
  pos := List.length_pos_iff.2 hne
  bid := by
    intro b o hb
    have hh := (BufRing.kpos_eq_mid hb).1
    rw [hprov] at hh
    exact Option.some.inj hh
  le := by rw [h.kpos_off]; exact hle
  more := by
    rw [h.kpos_off]
    simp only [Bool.not_eq_true', beq_eq_false_iff_ne]
    omega

theorem fillHead_kpos (h : RingOk m p) (hne : bs ≠ []) :
    (m.ring.fillHead bid rest bs).kpos = m.ring.kpos.next
      ⟨bid, bs.length, !(m.ring.filled + bs.length == m.ring.bufSize)⟩ := by
  have hpos : bs.length ≠ 0 := by simpa using hne
  rw [Pos.next, h.kpos_off]
  dsimp only [BufRing.fillHead, BufRing.kpos]
  cases hf : (m.ring.filled + bs.length == m.ring.bufSize) with
  | true =>
    simp only [↓reduceIte, Bool.not_true, Bool.false_eq_true]
    split <;> rfl
  | false => simp [hpos]

/-- The kernel appends what it receives to the unread bytes and disturbs nothing settled. -/
theorem kernelFill (h : RingOk m p) (hk : m.ring.kernelFill bs = some r) :
    RingOk { m with ring := r } p ∧ r.bufSize = m.ring.bufSize ∧
      r.content p r.cqes = m.ring.content p m.ring.cqes ++ bs ∧
      (∀ b, (r.bufs b).pending = (m.ring.bufs b).pending) ∧ ∀ b, KeepsAt m.ring r b := by
  obtain ⟨bid, rest, hprov, hne, hle, rfl⟩ := BufRing.kernelFill_eq hk
  have hroom := h.room
  have hkeep : ∀ b, KeepsAt m.ring (m.ring.fillHead bid rest bs) b := fillHead_keepsAt h hprov
  have hown : closed (m.ring.fillHead bid rest bs).cqes ++ (m.ring.fillHead bid rest bs).provided
      = closed m.ring.cqes ++ m.ring.provided := fillHead_owned hprov
  refine ⟨?_, rfl, ?_, fun b => by rw [fillHead_bufs], hkeep⟩
  · constructor
    · intro b
      rw [fillHead_bufs]
      dsimp only [BufRing.fillHead, BufRing.put]
      split
      · rw [blit_length (by rw [h.size]; exact hle), h.size]
      · exact h.size b
    · dsimp only [BufRing.fillHead, BufRing.put]
      split
      · omega
      · rename_i hf
        simp only [beq_iff_eq] at hf
        omega
    · dsimp only [BufRing.fillHead]
      split
      · exact fun _ => rfl
      · exact fun hc => by cases hc
    · rw [fillHead_kpos h hne]
      exact h.chain.snoc (fillHead_fits h hprov hne hle)
    · exact h.cur
    · rw [hown]
      exact h.owned
    · intro b hb
      rw [hown] at hb
      rw [fillHead_bufs]
      exact h.quiet b hb
    · intro b hb
      rw [hown] at hb
      rw [fillHead_bufs]
      exact h.offs b hb
  · have hold := content_congr (fun b o l hs => (hkeep b (o + l) hs).2 o l (Nat.le_refl _))
      h.chain h.nodup
    have hcq : (m.ring.fillHead bid rest bs).cqes = m.ring.cqes ++
        [⟨bid, bs.length, !(m.ring.filled + bs.length == m.ring.bufSize)⟩] := rfl
    rw [hcq, content_snoc _ h.chain, hold, h.kpos_off, fillHead_bufs]
    simp only [↓reduceIte]
    rw [slice_blit (by rw [h.size]; omega)]

end

theorem cur_settled (h : RingOk m p) {c : Cur} (hc : m.cur = some c) :
    m.ring.Settled c.bid (c.off + c.len) := by
  have hok := h.cur c hc
  cases hm : c.bufMore with
  | true =>
    have hch := h.chain
    rw [(hok.more hm).1] at hch
    exact hch.settled h.nodup
  | false =>
    -- a full buffer is no longer with the kernel
    have hown := h.owned
    rw [RingMode.held, hc] at hown
    simp only [hm, Bool.false_eq_true, ↓reduceIte] at hown
    exact fun hmem => absurd (List.mem_append_right _ hmem) (List.nodup_cons.1 hown).1

/-! ## Giving buffers back -/

theorem offIn_eq_zero (h : RingOk m p) (hb : b ∉ closed m.ring.cqes ++ m.ring.provided) :
    p.offIn b = 0 := by
  cases hp : p with
  | boundary => rfl
  | mid b' o =>
    rw [Pos.offIn, if_neg]
    rintro rfl
    have hch := h.chain
    rw [hp] at hch
    exact hb hch.mid_mem

theorem kernelProvide_eq {ε : Type} (h : (r.bufs b).pending = 0) :
    (r.kernelProvide b : Checked ε BufRing) = .ok (r.reprovided b) := by
  rw [BufRing.kernelProvide, Checked.require_ok _ h]
  rfl

theorem reprovided_bufs (r : BufRing) (b c : Nat) :
    (r.reprovided b).bufs c = { r.bufs c with
      awaiting := if c = b then false else (r.bufs c).awaiting
      recvOff := if c = b then 0 else (r.bufs c).recvOff } := by
  by_cases hb : c = b
  · subst hb
    simp [BufRing.reprovided, BufRing.put]
  · simp [BufRing.reprovided, BufRing.put, hb]

theorem provide (h : RingOk m p) (hb : b ∉ m.held ++ (closed m.ring.cqes ++ m.ring.provided)) :
    RingOk { m with ring := m.ring.reprovided b } p := by
  have hb' : b ∉ closed m.ring.cqes ++ m.ring.provided :=
    fun hm => hb (List.mem_append_right _ hm)
  have hown : ∀ c, c ∈ m.held ++ (closed m.ring.cqes ++ (m.ring.provided ++ [b])) →
      c ∈ m.held ++ (closed m.ring.cqes ++ m.ring.provided) ∨ c = b := by
    intro c hc
    simpa [List.mem_append, or_assoc] using hc
  constructor
  · intro c
    rw [reprovided_bufs]
    exact h.size c
  · exact h.room
  · intro hc
    simp [BufRing.reprovided] at hc
  · -- the kernel does not move: an empty queue means nothing is half filled
    have hk : (m.ring.reprovided b).kpos = m.ring.kpos := by
      dsimp only [BufRing.kpos, BufRing.reprovided, BufRing.put]
      cases hp : m.ring.provided with
      | nil => simp [h.dry hp]
      | cons c cs => rfl
    rw [hk]
    exact h.chain
  · exact h.cur
  · have hnd := h.owned
    have hsplit : m.held ++ (closed m.ring.cqes ++ (m.ring.provided ++ [b]))
        = (m.held ++ (closed m.ring.cqes ++ m.ring.provided)) ++ [b] := by simp
    show (m.held ++ (closed m.ring.cqes ++ (m.ring.provided ++ [b]))).Nodup
    rw [hsplit]
    exact List.nodup_append.2 ⟨hnd, by simp, fun x hx y hy hxy => by
      obtain rfl : y = b := by simpa using hy
      exact hb (hxy ▸ hx)⟩
  · intro c hc
    rw [reprovided_bufs]
    dsimp only
    split
    · rfl
    · rename_i hne
      exact h.quiet c ((hown c hc).resolve_right hne)
  · intro c hc
    rw [reprovided_bufs]
    dsimp only
    split
    · rename_i he
      rw [he, h.offIn_eq_zero hb']
    · rename_i hne
      have hc' : c ∈ closed m.ring.cqes ++ m.ring.provided := by
        simpa [BufRing.reprovided, BufRing.put, List.mem_append, hne] using hc
      exact h.offs c hc'

theorem of_put (h : RingOk m p) {n : Nat} {w : Bool}
    (hw : b ∈ m.held ++ (closed m.ring.cqes ++ m.ring.provided) → w = false) :
    RingOk { m with ring := m.ring.put b { m.ring.bufs b with pending := n, awaiting := w } } p := by
  have hbufs : ∀ c, ((m.ring.put b { m.ring.bufs b with pending := n, awaiting := w }).bufs c)
      = { m.ring.bufs c with
          pending := if c = b then n else (m.ring.bufs c).pending
          awaiting := if c = b then w else (m.ring.bufs c).awaiting } := by
    intro c
    by_cases hc : c = b
    · subst hc
      simp [BufRing.put]
    · simp [BufRing.put, hc]
  constructor
  · intro c
    rw [hbufs]
    exact h.size c
  · exact h.room
  · exact h.dry
  · exact h.chain
  · exact h.cur
  · exact h.owned
  · intro c hc
    rw [hbufs]
    dsimp only
    split
    · rename_i he
      exact hw (he ▸ hc)
    · exact h.quiet c hc
  · intro c hc
    rw [hbufs]
    exact h.offs c hc

end RingOk

/-- The reader is done with buffer `b`, which goes back with its last borrow. -/
def BufRing.Lent (r : BufRing) (b : Nat) : Prop :=
  (r.bufs b).awaiting = true ∧ 0 < (r.bufs b).pending

/-- The reader's side of a step: the completions and the buffers' memory are as they were, and at most
one buffer went back to the kernel, borrowed by nobody. -/
structure Steady (r r' : BufRing) : Prop where
  bufSize : r'.bufSize = r.bufSize
  cqes : r'.cqes = r.cqes
  filled : r'.filled = r.filled
  mem : ∀ b, (r'.bufs b).mem = (r.bufs b).mem
  provided : r'.provided = r.provided ∨
    ∃ b, r'.provided = r.provided ++ [b] ∧ (r'.bufs b).pending = 0
  lent : ∀ b, r.Lent b → r'.Lent b ∨ b ∈ r'.provided

theorem Steady.refl (r : BufRing) : Steady r r :=
  ⟨rfl, rfl, rfl, fun _ => rfl, .inl rfl, fun _ h => .inl h⟩

theorem Steady.put (r : BufRing) {s : SubBuf} (h : s.mem = (r.bufs b).mem)
    (hl : r.Lent b → (r.put b s).Lent b) : Steady r (r.put b s) := by
  refine ⟨rfl, rfl, rfl, fun c => ?_, .inl rfl, fun c hc => .inl ?_⟩ <;>
  by_cases hcb : c = b
  · subst hcb
    simp [BufRing.put, h]
  · simp [BufRing.put, hcb]
  · exact hcb ▸ hl (hcb ▸ hc)
  · simpa [BufRing.Lent, BufRing.put, hcb] using hc

theorem Steady.reprovided (r : BufRing) {s : SubBuf} (h : s.mem = (r.bufs b).mem)
    (hz : s.pending = 0) : Steady r ((r.put b s).reprovided b) := by
  refine ⟨rfl, rfl, rfl, fun c => ?_, .inr ⟨b, rfl, by simp [BufRing.reprovided, BufRing.put, hz]⟩,
    fun c hc => ?_⟩ <;>
  by_cases hcb : c = b
  · subst hcb
    simp [BufRing.reprovided, BufRing.put, h]
  · simp [BufRing.reprovided, BufRing.put, hcb]
  · exact .inr (by simp [BufRing.reprovided, hcb])
  · exact .inl (by simpa [BufRing.Lent, BufRing.reprovided, BufRing.put, hcb] using hc)

theorem Steady.keepsAt (h : Steady r r') (hb : 0 < (r'.bufs b).pending) : KeepsAt r r' b := by
  rcases h.provided with heq | ⟨c, heq, hz⟩
  · exact .of_same heq h.filled (h.mem b)
  intro n hn
  refine ⟨fun hmem => ?_, fun o l _ => by rw [h.mem]⟩
  have hne : b ≠ c := by
    rintro rfl
    omega
  obtain ⟨hh, hf⟩ := hn (by simpa [heq, hne] using hmem)
  rw [h.filled, heq, List.head?_append, hh]
  exact ⟨rfl, hf⟩

theorem Steady.content (h : Steady r r') (p : Pos) : r'.content p r'.cqes = r.content p r.cqes := by
  rw [content_mem h.mem, h.cqes]

namespace RingOk

variable {m : RingMode} {p : Pos}

theorem borrow (h : RingOk m p) (b : Nat) : RingOk { m with ring := m.ring.borrow b } p :=
  h.of_put (h.quiet b)

theorem borrow_pending (r : BufRing) (b c : Nat) :
    ((r.borrow b).bufs c).pending = (r.bufs c).pending + if c = b then 1 else 0 := by
  by_cases hc : c = b
  · subst hc
    simp [BufRing.borrow, BufRing.put]
  · simp [BufRing.borrow, BufRing.put, hc]

theorem borrow_steady (r : BufRing) (b : Nat) : Steady r (r.borrow b) :=
  Steady.put r rfl fun h => by simpa [BufRing.Lent, BufRing.put] using h.1

theorem release (h : RingOk m p) (ε : Type) (hb : 0 < (m.ring.bufs b).pending) :
    ∃ r, (m.ring.release b : Checked ε BufRing) = .ok r ∧ RingOk { m with ring := r } p ∧
      Steady m.ring r ∧
      ∀ c, (r.bufs c).pending + (if c = b then 1 else 0) = (m.ring.bufs c).pending := by
  have hput : RingOk { m with
      ring := m.ring.put b { m.ring.bufs b with pending := (m.ring.bufs b).pending - 1 } } p :=
    h.of_put (h.quiet b)
  have hpend : ∀ c, ((m.ring.put b { m.ring.bufs b with
      pending := (m.ring.bufs b).pending - 1 }).bufs c).pending + (if c = b then 1 else 0)
        = (m.ring.bufs c).pending := by
    intro c
    by_cases hc : c = b
    · subst hc
      simp only [BufRing.put, Function.update_self, ↓reduceIte]
      omega
    · simp [BufRing.put, hc]
  rw [BufRing.release, Checked.require_ok _ hb]
  simp only [Checked.bind_ok]
  split
  · rename_i hz
    obtain ⟨hz, haw⟩ := hz
    have haw' : (m.ring.bufs b).awaiting = true := by simpa [BufRing.put] using haw
    -- a buffer the reader has finished with is owned by nobody
    have hfree : b ∉ m.held ++ (closed m.ring.cqes ++ m.ring.provided) := by
      intro hm
      rw [h.quiet b hm] at haw'
      cases haw'
    refine ⟨_, kernelProvide_eq (by simpa [BufRing.put] using hz), hput.provide hfree,
      .reprovided m.ring rfl hz, fun c => ?_⟩
    rw [reprovided_bufs]
    exact hpend c
  · rename_i hz
    have hsteady : Steady m.ring
        (m.ring.put b { m.ring.bufs b with pending := (m.ring.bufs b).pending - 1 }) := by
      refine .put m.ring rfl fun hl => ?_
      simp only [BufRing.put, Function.update_self, BufRing.Lent] at hz hl ⊢
      exact ⟨hl.1, Nat.pos_of_ne_zero fun h0 => hz ⟨h0, hl.1⟩⟩
    exact ⟨_, rfl, hput, hsteady, hpend⟩

theorem retire (h : RingOk m p) (ε : Type) :
    ∃ m', (m.consume.retire : Checked ε RingMode) = .ok m' ∧ RingOk m' p ∧ m'.cur = none ∧
      Steady m.ring m'.ring ∧ (∀ b ∈ m.held, m'.ring.Lent b ∨ b ∈ m'.ring.provided) ∧
      ∀ c, (m'.ring.bufs c).pending = (m.ring.bufs c).pending := by
  cases hcur : m.cur with
  | none =>
    have hheld : m.held = [] := by rw [RingMode.held, hcur]
    refine ⟨m, ?_, h, hcur, .refl _, by simp [hheld], fun _ => rfl⟩
    cases m
    cases hcur
    rfl
  | some c =>
    have hnone : RingOk { m with cur := none } p := by
      have hsub : ∀ b, b ∈ closed m.ring.cqes ++ m.ring.provided →
          b ∈ m.held ++ (closed m.ring.cqes ++ m.ring.provided) :=
        fun b hb => List.mem_append_right _ hb
      have hno : ∀ c, (none : Option Cur) = some c → CurOk m.ring.bufSize p c :=
        fun c hc => by cases hc
      exact ⟨h.size, h.room, h.dry, h.chain, hno, h.nodup, fun b hb => h.quiet b (hsub b hb),
        h.offs⟩
    rw [RingMode.consume, hcur, RingMode.retire]
    simp only [Option.map_some, Nat.lt_irrefl, ↓reduceIte]
    cases hm : c.bufMore with
    | true =>
      exact ⟨_, rfl, hnone, rfl, .refl _, by simp [RingMode.held, hcur, hm], fun _ => rfl⟩
    | false =>
      have hheld : m.held = [c.bid] := by rw [RingMode.held, hcur]; simp [hm]
      have hfree : c.bid ∉ closed m.ring.cqes ++ m.ring.provided := by
        have := h.owned
        rw [hheld] at this
        exact (List.nodup_cons.1 this).1
      simp only [Bool.not_false, ↓reduceIte, BufRing.recvDone, hheld, List.mem_singleton, forall_eq]
      split
      · rename_i hz
        rw [kernelProvide_eq hz]
        have hst := Steady.reprovided m.ring (b := c.bid) rfl hz
        rw [BufRing.put, Function.update_eq_self] at hst
        exact ⟨_, rfl, hnone.provide hfree, rfl, hst, .inr (by simp [BufRing.reprovided]),
          fun b => by rw [reprovided_bufs]⟩
      · rename_i hz
        have hlent : (m.ring.put c.bid { m.ring.bufs c.bid with awaiting := true }).Lent c.bid := by
          simpa [BufRing.Lent, BufRing.put] using Nat.pos_of_ne_zero hz
        have hst := Steady.put m.ring (s := { m.ring.bufs c.bid with awaiting := true }) rfl
          fun _ => hlent
        refine ⟨_, rfl, hnone.of_put (fun hb => absurd hb hfree), rfl, hst, .inl hlent, fun b => ?_⟩
        by_cases hb : b = c.bid
        · subst hb
          simp [BufRing.put]
        · simp [BufRing.put, hb]

end RingOk

theorem Fits.offIn (h : Fits size p c) : p.offIn c.bid = p.off := by
  cases hp : p with
  | boundary => rfl
  | mid b o => simp [Pos.offIn, Pos.off, h.bid b o hp]

theorem Fits.offIn_other (h : Fits size p c) (hb : b ≠ c.bid) : p.offIn b = 0 := by
  cases hp : p with
  | boundary => rfl
  | mid b' o =>
    rw [Pos.offIn, if_neg]
    rintro rfl
    exact hb (h.bid b' o hp).symm

theorem RingMode.observed_eq (m : RingMode) (c : RecvChunk) (rest : List RecvChunk) :
    m.observed c rest =
      { ring := { m.ring with
          cqes := rest
          bufs := fun b => { m.ring.bufs b with
            recvOff := (m.ring.bufs b).recvOff + if c.bufMore ∧ b = c.bid then c.len else 0 } }
        cur := some ⟨c.bid, (m.ring.bufs c.bid).recvOff, c.len, 0, c.bufMore⟩ } := by
  unfold RingMode.observed
  cases hm : c.bufMore with
  | false => simp
  | true =>
    have hbufs : Function.update m.ring.bufs c.bid { m.ring.bufs c.bid with
        recvOff := (m.ring.bufs c.bid).recvOff + c.len } = fun b => { m.ring.bufs b with
          recvOff := (m.ring.bufs b).recvOff + if b = c.bid then c.len else 0 } := by
      funext b
      by_cases hb : b = c.bid
      · subst hb
        simp
      · simp [hb]
    simp [BufRing.recvAdvance, BufRing.put, hbufs]

theorem RingMode.observe_eq {m m' : RingMode} (ho : m.observe = some m') :
    ∃ c rest, m.cur = none ∧ m.ring.cqes = c :: rest ∧ m' = m.observed c rest := by
  unfold RingMode.observe at ho
  split at ho
  · rename_i c rest hcur hcq
    exact ⟨c, rest, hcur, hcq, (Option.some.inj ho).symm⟩
  · cases ho

/-- The buffers in use stay the same: a final chunk's buffer is now the one being read. -/
theorem RingMode.observed_inUse {m : RingMode} {rest : List RecvChunk} (hcur : m.cur = none)
    (hcq : m.ring.cqes = c :: rest) :
    (m.observed c rest).held ++
      (closed (m.observed c rest).ring.cqes ++ (m.observed c rest).ring.provided)
      = m.held ++ (closed m.ring.cqes ++ m.ring.provided) := by
  rw [hcq, closed_cons, RingMode.held, RingMode.held, hcur, RingMode.observed_eq]
  dsimp only
  split <;> simp

theorem RingOk.observe {m m' : RingMode} (h : RingOk m p) (ho : m.observe = some m') :
    ∃ c, m.ring.cqes = c :: m'.ring.cqes ∧ Fits m.ring.bufSize p c ∧
      m'.cur = some ⟨c.bid, p.off, c.len, 0, c.bufMore⟩ ∧ RingOk m' (p.next c) ∧
      m'.ring.bufSize = m.ring.bufSize ∧
      (∀ b, (m'.ring.bufs b).mem = (m.ring.bufs b).mem ∧
        (m'.ring.bufs b).pending = (m.ring.bufs b).pending) ∧
      ∀ b, KeepsAt m.ring m'.ring b := by
  obtain ⟨c, rest, hcur, hcq, rfl⟩ := RingMode.observe_eq ho
  rw [RingMode.observed_eq]
  have hch := h.chain
  have hown := h.nodup
  have hsame := RingMode.observed_inUse hcur hcq
  rw [RingMode.observed_eq] at hsame
  have hoff : (m.ring.bufs c.bid).recvOff = p.off := by
    have hfit : Fits m.ring.bufSize p c := by rw [hcq] at hch; exact hch.1
    rw [h.offs c.bid (hch.bid_mem (by rw [hcq]; exact List.mem_cons_self)), hfit.offIn]
  rw [hcq] at hch hown
  obtain ⟨hfit, hrest⟩ := hch
  rw [hoff] at hsame ⊢
  refine ⟨c, hcq, hfit, rfl, ?_, rfl, fun b => ⟨rfl, rfl⟩, fun b => .of_same rfl rfl rfl⟩
  constructor
  · exact h.size
  · exact h.room
  · exact h.dry
  · exact hrest
  · intro c' hc'
    obtain rfl := Option.some.inj hc'
    refine ⟨hfit.pos, hfit.le, fun hm => ?_, fun hm => ?_⟩
    · exact ⟨if_pos hm, hfit.more.1 hm⟩
    · refine ⟨if_neg (by simpa using hm), ?_⟩
      have hnot : ¬ p.off + c.len < m.ring.bufSize := fun hlt => by
        rw [hfit.more.2 hlt] at hm
        cases hm
      have := hfit.le
      dsimp only
      omega
  · exact hsame ▸ h.owned
  · intro b hb
    exact h.quiet b (hsame ▸ hb)
  · intro b hb
    have hmem : b ∈ closed m.ring.cqes ++ m.ring.provided := by
      rw [hcq, closed_cons]
      split
      · exact hb
      · exact List.mem_cons_of_mem _ hb
    have hold := h.offs b hmem
    dsimp only
    rw [hold]
    by_cases hbc : b = c.bid
    · subst hbc
      cases hm : c.bufMore with
      | true =>
        rw [hfit.offIn]
        simp [Pos.next, hm, Pos.offIn]
      | false =>
        -- a full buffer is neither pending nor with the kernel any more
        rw [closed_cons, hm] at hown
        exact absurd hb (List.nodup_cons.1 hown).1
    · rw [hfit.offIn_other hbc, if_neg (fun hc => hbc hc.2)]
      unfold Pos.next
      split
      · simp [Pos.offIn, Ne.symm hbc]
      · rfl

/-! ## Where the buffers are -/

/-- A buffer that is not with the kernel, to be looked at or being read is lent. -/
def RingMode.Kept (m : RingMode) : Prop :=
  ∀ b < nbufs, b ∉ m.held ++ (closed m.ring.cqes ++ m.ring.provided) → m.ring.Lent b

namespace RingMode.Kept

variable {m m' : RingMode} {bid : Nat} {rest : List Nat} {bs : List UInt8}

theorem fillHead (h : m.Kept) (hprov : m.ring.provided = bid :: rest) :
    RingMode.Kept { m with ring := m.ring.fillHead bid rest bs } := by
  intro b hb
  show b ∉ m.held ++ _ → _
  rw [RingOk.fillHead_owned hprov, BufRing.Lent, RingOk.fillHead_bufs]
  exact h b hb

theorem observed {rest : List RecvChunk} (h : m.Kept) (hcur : m.cur = none)
    (hcq : m.ring.cqes = c :: rest) : (m.observed c rest).Kept := by
  intro b hb
  rw [RingMode.observed_inUse hcur hcq, BufRing.Lent, RingMode.observed_eq]
  exact h b hb

theorem steady (h : m.Kept) (hs : Steady m.ring m'.ring)
    (hheld : ∀ b ∈ m.held, b ∈ m'.held ∨ m'.ring.Lent b ∨ b ∈ m'.ring.provided) : m'.Kept := by
  intro b hb
  have hprov : b ∈ m.ring.provided → b ∈ m'.ring.provided := by
    rcases hs.provided with heq | ⟨b', heq, -⟩ <;> simp +contextual [heq]
  have hkept := h b hb
  have hheld := hheld b
  have hlent := hs.lent b
  rw [List.mem_append, List.mem_append, hs.cqes] at *
  tauto

end RingMode.Kept

end Ioutgt.Uring
