import Ioutgt.Nvme.Pdu

/-!
# The header decoder

What `feed` and `take` do, stated once for everything that reads a PDU stream.

* `HdrOk`, `fullHeaderLen_ok`: what an accepted common header satisfies.
* `Wf`: the decoder's invariant between calls.
* `feed_rest`, `feed_common_short`, `feed_common_full`: `feed` in closed form.
* `Wf.feed`, `feed_safe`: the invariant is kept, the bytes buffered are the bytes consumed, and
  nothing panics.
* `Wf.take`, `take_safe`: what `take` returns, and that it never panics on a complete header.
-/

namespace Ioutgt.Nvme.PduDecoder

open Lib

variable {d d' : PduDecoder} {n : Nat} {bs input : List UInt8} {pdu : DecodedPdu}

/-! ## The common header -/

def hdr (d : PduDecoder) : CommonHeader := CommonHeader.readFromBytes (d.buf.bytes.take 8)

theorem readFromBytes_eq_hdr (d : PduDecoder) :
    CommonHeader.readFromBytes (d.buf.bytes.take 8) = d.hdr := rfl

def hdgst (d : PduDecoder) : Bool := ((layoutOf d.hdr.pduType).any (·.2)) && d.hdrDigest

structure HdrOk (d : PduDecoder) (n : Nat) : Prop where
  layout : ∃ dig, layoutOf d.hdr.pduType = some (d.hdr.hlen, dig)
  len : n = d.hdr.hlen + if d.hdgst then 4 else 0
  flag : hasFlag d.hdr.flags PduFlags.hdgst → d.hdgst
  plen_ge : n ≤ d.hdr.plen
  plen_le : d.hdr.plen ≤ maxPlen
  exact : ∀ e, exactPlen d.hdr.pduType n = some e → e = d.hdr.plen
  ddgst : hasFlag d.hdr.flags PduFlags.ddgst → n + 5 ≤ d.hdr.plen

theorem layoutOf_hlen {ty h : Nat} {dig : Bool} (hl : layoutOf ty = some (h, dig)) :
    (h = 128 ∧ dig = false) ∨ h = 24 ∨ h = 72 := by
  unfold layoutOf at hl
  repeat' split at hl
  all_goals simp_all

theorem fullHeaderLen_ok (h : d.fullHeaderLen = .ok n) : d.HdrOk n := by
  unfold fullHeaderLen at h
  simp only [readFromBytes_eq_hdr] at h
  cases hl : layoutOf d.hdr.pduType with
  | none => simp [hl] at h
  | some p =>
    obtain ⟨e, dig⟩ := p
    have hd : d.hdgst = (dig && d.hdrDigest) := by simp [hdgst, hl]
    simp only [hl, ← hd] at h
    generalize hw : (e + if d.hdgst = true then 4 else 0) = w at h
    split at h
    · simp at h
    rename_i hlen
    split at h
    · simp at h
    rename_i hflag
    split at h
    · simp at h
    rename_i hplen
    split at h
    · simp at h
    rename_i hexact
    split at h
    · simp at h
    rename_i hddgst
    have he : d.hdr.hlen = e := by simpa using hlen
    obtain rfl : w = n := by simpa using h
    refine ⟨⟨dig, by rw [he]; exact hl⟩, by rw [he]; exact hw.symm, ?_, by omega, by omega, ?_, ?_⟩
    · intro hf
      simpa [hf] using hflag
    · intro x hx
      simpa [hx] using hexact
    · intro hf
      simp only [hf, true_and, not_lt] at hddgst
      omega

theorem HdrOk.hlen_cases (h : d.HdrOk n) :
    (n = 128 ∧ d.hdr.hlen = 128 ∧ d.hdgst = false) ∨
      (d.hdr.hlen = 24 ∨ d.hdr.hlen = 72) ∧ n = d.hdr.hlen + if d.hdgst then 4 else 0 := by
  obtain ⟨dig, hl⟩ := h.layout
  rcases layoutOf_hlen hl with ⟨h128, hdig⟩ | h24 | h72
  · have hg : d.hdgst = false := by simp [hdgst, hl, hdig]
    exact .inl ⟨by rw [h.len, h128, hg]; rfl, h128, hg⟩
  · exact .inr ⟨.inl h24, h.len⟩
  · exact .inr ⟨.inr h72, h.len⟩

theorem HdrOk.bounds (h : d.HdrOk n) : 24 ≤ n ∧ n ≤ maxHdr := by
  have hd : (if d.hdgst then 4 else 0) ≤ 4 := by split <;> omega
  rcases h.hlen_cases with ⟨h1, -, -⟩ | ⟨h1 | h1, h2⟩ <;> (simp only [maxHdr]; omega)

theorem fullHeaderLen_safe (d : PduDecoder) : Checked.Safe d.fullHeaderLen := by
  unfold fullHeaderLen
  dsimp only
  repeat' split
  all_goals first | exact Checked.safe_raise _ | exact Checked.safe_ok _

theorem fullHeaderLen_congr (hb : d'.buf.bytes.take 8 = d.buf.bytes.take 8)
    (hd : d'.hdrDigest = d.hdrDigest) : d'.fullHeaderLen = d.fullHeaderLen := by
  unfold fullHeaderLen
  rw [hb, hd]

/-! ## Buffering bytes -/

def push (d : PduDecoder) (bs : List UInt8) : PduDecoder :=
  { d with buf := (d.buf.write d.have_ bs).getD d.buf, have_ := d.have_ + bs.length }

def held (d : PduDecoder) : List UInt8 := d.buf.bytes.take d.have_

theorem push_bytes (h : d.have_ + bs.length ≤ maxHdr) :
    (d.push bs).buf.bytes = blit d.buf.bytes d.have_ bs := by
  simp [push, Buf.write, h]

theorem copyIn_eq_push (h : d.have_ + bs.length ≤ maxHdr) : d.copyIn bs = .ok (d.push bs) := by
  simp [copyIn, push, Buf.write, h]

@[simp] theorem push_nil (d : PduDecoder) : d.push [] = d := by
  have : (d.buf.write d.have_ []).getD d.buf = d.buf := by
    unfold Buf.write
    split
    · apply Buf.ext; simp [blit_nil]
    · rfl
  cases d; simp_all [push]

theorem held_push (h : d.have_ + bs.length ≤ maxHdr) : (d.push bs).held = d.held ++ bs := by
  have hs := d.buf.size
  rw [held, push_bytes h]
  exact take_blit (by omega)

theorem push_push {a b : List UInt8} (h : d.have_ + (a ++ b).length ≤ maxHdr) :
    (d.push a).push b = d.push (a ++ b) := by
  have hs := d.buf.size
  rw [List.length_append] at h
  have hbuf : ((d.push a).push b).buf = (d.push (a ++ b)).buf := by
    apply Buf.ext
    rw [push_bytes (by simp only [push]; omega), push_bytes (by omega),
      push_bytes (by rw [List.length_append]; omega)]
    exact blit_blit (by omega)
  have hhave : d.have_ + a.length + b.length = d.have_ + (a ++ b).length := by
    rw [List.length_append]; omega
  simp only [push] at hbuf ⊢
  simp only [PduDecoder.mk.injEq, true_and, and_true]
  exact ⟨hbuf, hhave⟩

theorem push_take8 (h8 : 8 ≤ d.have_) (h : d.have_ + bs.length ≤ maxHdr) :
    (d.push bs).buf.bytes.take 8 = d.buf.bytes.take 8 := by
  have hh := held_push h
  have hs := d.buf.size
  have e1 : (d.push bs).buf.bytes.take 8 = (d.push bs).held.take 8 := by
    rw [held, List.take_take, Nat.min_eq_left]
    simp only [push]; omega
  have e2 : d.buf.bytes.take 8 = d.held.take 8 := by
    rw [held, List.take_take, Nat.min_eq_left h8]
  rw [e1, e2, hh, List.take_append_of_le_length]
  rw [held, List.length_take]; omega

/-! ## `feed` in closed form -/

structure Wf (d : PduDecoder) : Prop where
  common : d.state = .common → d.need = 8 ∧ d.have_ < 8
  rest : d.state = .rest → 8 ≤ d.have_ ∧ d.have_ < d.need
  complete : d.state = .complete → d.have_ = d.need
  checked : d.state ≠ .common → d.fullHeaderLen = .ok d.need

theorem Wf.new (hdrDigest : Bool) : (PduDecoder.new hdrDigest).Wf := by
  constructor <;> simp [PduDecoder.new]

theorem Wf.need_le (h : d.Wf) : d.need ≤ maxHdr := by
  by_cases hs : d.state = .common
  · rw [(h.common hs).1]; decide
  · exact (fullHeaderLen_ok (h.checked hs)).bounds.2

theorem Wf.have_le (h : d.Wf) : d.have_ ≤ d.need := by
  cases hs : d.state with
  | common => have := h.common hs; omega
  | rest => have := h.rest hs; omega
  | complete => have := h.complete hs; omega

theorem slice_to_end (bs : List UInt8) (off : Nat) :
    slice bs off (bs.length - off) = bs.drop off := by
  rw [slice, List.take_of_length_le (by simp)]

theorem feedLoop_rest (h : d.Wf) (hs : d.state = .rest) {c : Nat} (hc : c ≤ input.length) (k : Nat) :
    feedLoop (k + 2) d input c =
      if d.have_ + (input.length - c) < d.need then .ok (d.push (input.drop c), input.length)
      else .ok ({ d.push (slice input c (d.need - d.have_)) with state := .complete },
        c + (d.need - d.have_)) := by
  obtain ⟨-, hlt⟩ := h.rest hs
  have hmax := h.need_le
  have hwant : d.need - d.have_ > 0 := by omega
  rw [feedLoop, if_neg (by simp [hs]), Checked.sub_ok (by omega), Checked.bind_ok, if_pos hwant,
    Checked.sub_ok hc, Checked.bind_ok]
  by_cases hz : input.length - c = 0
  · rw [if_pos (by omega), if_pos (by omega), List.drop_eq_nil_of_le (by omega), push_nil]
    congr 2
    omega
  rw [if_neg (by omega)]
  by_cases hlen : d.have_ + (input.length - c) < d.need
  · have hmin : min (d.need - d.have_) (input.length - c) = input.length - c := by omega
    rw [hmin, slice_to_end, copyIn_eq_push (by simp; omega), Checked.bind_ok, if_pos hlen,
      if_pos (by simpa [push] using hlen)]
    congr 2
    omega
  · have hmin : min (d.need - d.have_) (input.length - c) = d.need - d.have_ := by omega
    have hsl : (slice input c (d.need - d.have_)).length = d.need - d.have_ := by
      rw [slice_length]; omega
    rw [hmin, copyIn_eq_push (by omega), Checked.bind_ok, if_neg hlen,
      if_neg (by simp only [push, hsl]; omega), advance, if_neg (by simp [push, hs])]
    simp [feedLoop]

theorem feed_rest (h : d.Wf) (hs : d.state = .rest) (input : List UInt8) :
    d.feed input =
      if d.have_ + input.length < d.need then .ok (d.push input, input.length)
      else .ok ({ d.push (input.take (d.need - d.have_)) with state := .complete },
        d.need - d.have_) := by
  rw [feed, feedLoop_rest h hs (Nat.zero_le _)]
  simp [slice]

theorem feed_common_short (h : d.Wf) (hs : d.state = .common) (hl : d.have_ + input.length < 8) :
    d.feed input = .ok (d.push input, input.length) := by
  obtain ⟨hn, hlt⟩ := h.common hs
  rw [feed, feedLoop, if_neg (by simp [hs]), Checked.sub_ok (by omega), Checked.bind_ok,
    if_pos (by omega), Checked.sub_ok (Nat.zero_le _), Checked.bind_ok]
  by_cases hz : input = []
  · subst hz
    simp
  have hpos : 0 < input.length := List.length_pos_iff.2 hz
  have hmin : min (d.need - d.have_) (input.length - 0) = input.length - 0 := by omega
  rw [if_neg (by omega), hmin, slice_to_end, copyIn_eq_push (by simp [maxHdr]; omega),
    Checked.bind_ok, if_pos (by simp only [push, hn, List.drop_zero]; omega)]
  simp

theorem feed_common_full (h : d.Wf) (hs : d.state = .common) (hl : 8 ≤ d.have_ + input.length) :
    d.feed input = (d.push (input.take (8 - d.have_))).fullHeaderLen >>= fun n =>
      feedLoop 2 { d.push (input.take (8 - d.have_)) with need := n, state := .rest } input
        (8 - d.have_) := by
  obtain ⟨hn, hlt⟩ := h.common hs
  have hmin : min (8 - d.have_) (input.length - 0) = 8 - d.have_ := by omega
  have hlen : (input.take (8 - d.have_)).length = 8 - d.have_ := by simp; omega
  rw [feed, feedLoop, if_neg (by simp [hs]), hn, Checked.sub_ok (by omega), Checked.bind_ok,
    if_pos (by omega), Checked.sub_ok (Nat.zero_le _), Checked.bind_ok, hmin,
    if_neg (by omega), slice, List.drop_zero, copyIn_eq_push (by rw [hlen, maxHdr]; omega),
    Checked.bind_ok, if_neg (by simp only [push, hn, hlen]; omega), advance,
    if_pos (by simp [push, hs])]
  simp

/-! ## The invariant is kept -/

theorem Wf.push_common (h : d.Wf) (hs : d.state = .common) (hl : d.have_ + bs.length < 8) :
    (d.push bs).Wf := by
  have hst : (d.push bs).state = .common := hs
  refine ⟨fun _ => ⟨(h.common hs).1, hl⟩, ?_, ?_, ?_⟩ <;> intro hc <;> simp [hst] at hc

theorem Wf.enter_rest (hl : d.have_ + bs.length = 8) (hn : (d.push bs).fullHeaderLen = .ok n) :
    Wf { d.push bs with need := n, state := .rest } := by
  have hb := (fullHeaderLen_ok hn).bounds
  refine ⟨by simp, fun _ => ?_, by simp, fun _ => ?_⟩
  · simp only [push, hl]
    omega
  · rw [← hn]
    exact fullHeaderLen_congr rfl rfl

theorem Wf.push_rest (h : d.Wf) (hs : d.state = .rest) (hl : d.have_ + bs.length < d.need) :
    (d.push bs).Wf := by
  have hst : (d.push bs).state = .rest := hs
  have hmax := h.need_le
  obtain ⟨h8, -⟩ := h.rest hs
  refine ⟨by simp [hst], fun _ => ⟨?_, hl⟩, by simp [hst], fun _ => ?_⟩
  · simp only [push]; omega
  · rw [fullHeaderLen_congr (push_take8 h8 (by omega)) rfl]
    exact h.checked (by simp [hs])

theorem Wf.push_complete (h : d.Wf) (hs : d.state = .rest) (hl : d.have_ + bs.length = d.need) :
    Wf { d.push bs with state := .complete } := by
  have hmax := h.need_le
  obtain ⟨h8, -⟩ := h.rest hs
  refine ⟨by simp, by simp, fun _ => hl, fun _ => ?_⟩
  have hc : PduDecoder.fullHeaderLen { d.push bs with state := .complete } = d.fullHeaderLen :=
    fullHeaderLen_congr (push_take8 h8 (by omega)) rfl
  rw [hc]
  exact h.checked (by simp [hs])

structure Fed (d : PduDecoder) (input : List UInt8) (d' : PduDecoder) (n : Nat) : Prop where
  wf : d'.Wf
  le : n ≤ input.length
  held : d'.held = d.held ++ input.take n
  have_ : d'.have_ = d.have_ + n
  hdrDigest : d'.hdrDigest = d.hdrDigest
  all : d'.state ≠ .complete → n = input.length
  pos : input ≠ [] → 0 < n

theorem Fed.of_rest (h : d.Wf) (hs : d.state = .rest) (hf : d.feed input = .ok (d', n)) :
    Fed d input d' n := by
  have hmax := h.need_le
  obtain ⟨-, hlt⟩ := h.rest hs
  rw [feed_rest h hs] at hf
  split at hf
  · rename_i hl
    cases hf
    refine ⟨h.push_rest hs hl, le_rfl, ?_, rfl, rfl, fun _ => rfl, ?_⟩
    · rw [held_push (by omega), List.take_length]
    · exact List.length_pos_iff.2
  · rename_i hl
    cases hf
    have hlen : (input.take (d.need - d.have_)).length = d.need - d.have_ := by simp; omega
    refine ⟨h.push_complete hs (by omega), by omega, ?_, ?_, rfl, by simp, by omega⟩
    · exact held_push (by omega)
    · simp only [push, hlen]

theorem Fed.of_common (h : d.Wf) (hs : d.state = .common) (hf : d.feed input = .ok (d', n)) :
    Fed d input d' n := by
  obtain ⟨hn, hlt⟩ := h.common hs
  by_cases hl : d.have_ + input.length < 8
  · rw [feed_common_short h hs hl] at hf
    cases hf
    refine ⟨h.push_common hs hl, le_rfl, ?_, rfl, rfl, fun _ => rfl, List.length_pos_iff.2⟩
    rw [held_push (by simp only [maxHdr]; omega), List.take_length]
  · have h8 : (input.take (8 - d.have_)).length = 8 - d.have_ := by simp; omega
    rw [feed_common_full h hs (by omega), Checked.bind_eq_ok] at hf
    obtain ⟨m, hm, hf⟩ := hf
    have hw := Wf.enter_rest (by omega) hm
    have hheld : (d.push (input.take (8 - d.have_))).held = d.held ++ input.take (8 - d.have_) :=
      held_push (by simp only [maxHdr]; omega)
    -- the rest of the call is a `feed` of the remaining bytes in the state just entered
    generalize hd1 : ({ d.push (input.take (8 - d.have_)) with need := m, state := .rest } :
      PduDecoder) = d1 at hf hw
    have hst : d1.state = .rest := by rw [← hd1]
    have hh1 : d1.held = d.held ++ input.take (8 - d.have_) := by rw [← hd1]; exact hheld
    have hv1 : d1.have_ = 8 := by rw [← hd1]; simp only [push, h8]; omega
    have hg1 : d1.hdrDigest = d.hdrDigest := by rw [← hd1]; rfl
    have hb1 := hw.need_le
    obtain ⟨-, hlt1⟩ := hw.rest hst
    rw [feedLoop_rest hw hst (by omega)] at hf
    split at hf
    · rename_i hl1
      cases hf
      refine ⟨hw.push_rest hst (by simp; omega), le_rfl, ?_, ?_, hg1, fun _ => rfl, ?_⟩
      · rw [held_push (by simp; omega), hh1, List.append_assoc, List.take_append_drop,
          List.take_length]
      · simp only [push, hv1, List.length_drop]; omega
      · exact List.length_pos_iff.2
    · rename_i hl1
      cases hf
      have hsl : (slice input (8 - d.have_) (d1.need - d1.have_)).length = d1.need - d1.have_ := by
        rw [slice_length]; omega
      refine ⟨hw.push_complete hst (by omega), by omega, ?_, ?_, hg1, by simp, by omega⟩
      · have hp : (d1.push (slice input (8 - d.have_) (d1.need - d1.have_))).held
            = d1.held ++ slice input (8 - d.have_) (d1.need - d1.have_) := held_push (by omega)
        refine hp.trans ?_
        rw [hh1, List.append_assoc, slice, List.take_add]
      · simp only [push]; omega

/-- **One call of `feed`**: what it consumed is what it buffered, and the invariant stands. -/
theorem Wf.feed (h : d.Wf) (hs : d.state ≠ .complete) (hf : d.feed input = .ok (d', n)) :
    Fed d input d' n := by
  cases hst : d.state with
  | common => exact .of_common h hst hf
  | rest => exact .of_rest h hst hf
  | complete => exact absurd hst hs

theorem feed_safe (h : d.Wf) (hs : d.state ≠ .complete) (input : List UInt8) :
    Checked.Safe (d.feed input) := by
  cases hst : d.state with
  | complete => exact absurd hst hs
  | rest =>
    rw [feed_rest h hst]
    split <;> exact Checked.safe_ok _
  | common =>
    obtain ⟨hn, hlt⟩ := h.common hst
    by_cases hl : d.have_ + input.length < 8
    · rw [feed_common_short h hst hl]
      exact Checked.safe_ok _
    · rw [feed_common_full h hst (by omega)]
      refine (fullHeaderLen_safe _).bind fun m hm => ?_
      have h8 : (input.take (8 - d.have_)).length = 8 - d.have_ := by simp; omega
      rw [feedLoop_rest (Wf.enter_rest (by omega) hm) rfl (by omega)]
      split <;> exact Checked.safe_ok _

/-! ## `take` -/

structure Taken (d : PduDecoder) (pdu : DecodedPdu) (d' : PduDecoder) : Prop where
  reset : d' = { d with have_ := 0, need := 8, state := .common }
  plen : d.need + pdu.dataLen + (if pdu.ddgst then 4 else 0) = d.hdr.plen
  kind : parseKind d.hdr d.buf.bytes pdu.dataLen = .ok pdu.kind
  ddgst : pdu.ddgst = ((layoutOf d.hdr.pduType).any (·.2) && hasFlag d.hdr.flags PduFlags.ddgst)

theorem layoutOf_digestable {ty h : Nat} {dig : Bool} (hl : layoutOf ty = some (h, dig)) :
    (!(ty == PduType.icreq || ty == PduType.icresp || ty == PduType.h2cTerm ||
      ty == PduType.c2hTerm)) = dig := by
  unfold layoutOf at hl
  repeat' split at hl
  all_goals simp_all [PduType.icreq, PduType.icresp, PduType.h2cTerm, PduType.c2hTerm,
    PduType.capsuleCmd, PduType.capsuleResp, PduType.h2cData, PduType.c2hData, PduType.r2t]
  all_goals omega

/-- `take` on a complete header, its `let`s resolved against the checks `feed` has made. -/
theorem take_eq (h : d.Wf) (hs : d.state = .complete) :
    d.take =
      if d.hdgst ∧ leAt d.buf.bytes d.hdr.hlen 4 ≠ (crc32c (d.buf.bytes.take d.hdr.hlen)).toNat
      then .raise { fes := Fes.hdrDigestErr, fei := 0 }
      else
        let ddgst := (layoutOf d.hdr.pduType).any (·.2) && hasFlag d.hdr.flags PduFlags.ddgst
        let dataLen := d.hdr.plen - d.need - if ddgst then 4 else 0
        if d.hdr.pdo ≠ 0 ∧ d.hdr.pdo ≠ d.need then .raise (PduError.hdrField 3)
        else parseKind d.hdr d.buf.bytes dataLen >>= fun kind =>
          .ok ({ kind, dataLen, ddgst }, { d with have_ := 0, need := 8, state := .common }) := by
  have hc := fullHeaderLen_ok (h.checked (by simp [hs]))
  obtain ⟨dig, hl⟩ := hc.layout
  have hdg := layoutOf_digestable hl
  have hany : (layoutOf d.hdr.pduType).any (·.2) = dig := by simp [hl]
  have hhd : d.hdgst = (dig && d.hdrDigest) := by rw [hdgst, hany]
  have hfit : d.hdgst = true → d.hdr.hlen + 4 ≤ maxHdr := by
    intro hg
    have := hc.bounds.2
    rw [hc.len, if_pos hg] at this
    exact this
  have hdd : (if dig && hasFlag d.hdr.flags PduFlags.ddgst then 4 else 0) ≤ d.hdr.plen - d.need := by
    have hge := hc.plen_ge
    split
    · rename_i hf
      simp only [Bool.and_eq_true] at hf
      have := hc.ddgst hf.2
      omega
    · omega
  have hlen := hc.len
  unfold take
  simp only [readFromBytes_eq_hdr, hdg, hany, ← hhd, ← hlen]
  rw [Checked.require_ok _ (by simp [isComplete, hs]), Checked.bind_ok,
    Checked.require_ok _ hfit, Checked.bind_ok, Checked.sub_ok hc.plen_ge, Checked.bind_ok,
    Checked.sub_ok hdd, Checked.bind_ok]
  rfl

theorem Wf.take (h : d.Wf) (hs : d.state = .complete) (ht : d.take = .ok (pdu, d')) :
    Taken d pdu d' := by
  have hc := fullHeaderLen_ok (h.checked (by simp [hs]))
  rw [take_eq h hs] at ht
  split at ht
  · simp at ht
  dsimp only at ht
  split at ht
  · simp at ht
  obtain ⟨kind, hk, ht⟩ := Checked.bind_eq_ok.1 ht
  cases ht
  refine ⟨rfl, ?_, hk, rfl⟩
  have hge := hc.plen_ge
  dsimp only
  split
  · rename_i hf
    simp only [Bool.and_eq_true] at hf
    have := hc.ddgst hf.2
    omega
  · omega

theorem take_safe (h : d.Wf) (hs : d.state = .complete) : Checked.Safe d.take := by
  have hc := fullHeaderLen_ok (h.checked (by simp [hs]))
  obtain ⟨dig, hl⟩ := hc.layout
  rw [take_eq h hs]
  split
  · exact Checked.safe_raise _
  dsimp only
  split
  · exact Checked.safe_raise _
  refine Checked.Safe.bind ?_ fun _ _ => Checked.safe_ok _
  -- every type `layoutOf` knows has its arm in `parseKind`
  unfold layoutOf at hl
  unfold parseKind
  repeat' split
  all_goals first
    | exact Checked.safe_raise _
    | exact Checked.safe_ok _
    | simp_all

theorem Taken.wf (h : Taken d pdu d') : d'.Wf := by
  rw [h.reset]
  constructor <;> simp

theorem Taken.fresh (h : Taken d pdu d') : d'.have_ = 0 ∧ d'.state ≠ .complete := by
  rw [h.reset]
  exact ⟨rfl, fun hx => by cases hx⟩

end Ioutgt.Nvme.PduDecoder
