import Ioutgt.Nvme.Proof.PduDecoder

/-!
# What an accepted header says

`HeaderOf hdr pdu`: the header bytes `hdr` decode to `pdu`. The decoder's buffer, its padding and
what earlier PDUs left in it do not matter (`Taken.headerOf`), so users of the receive path speak
about the bytes of the stream only.

* `HeaderOf.capsuleCmd`, `HeaderOf.h2cData`: the fields of the two PDUs a target accepts.
-/

namespace Ioutgt.Nvme

open Lib PduDecoder

structure HeaderOf (hdr : List UInt8) (pdu : DecodedPdu) : Prop where
  plen : hdr.length + pdu.dataLen + (if pdu.ddgst then 4 else 0) = leAt hdr 4 4
  kind : parseKind (CommonHeader.readFromBytes hdr) hdr pdu.dataLen = .ok pdu.kind
  flag : pdu.ddgst = ((layoutOf (byteAt hdr 0)).any (·.2) && hasFlag (byteAt hdr 1) PduFlags.ddgst)
  pos : pdu.ddgst = true → 0 < pdu.dataLen
  long : 24 ≤ hdr.length

theorem CommonHeader.readFromBytes_take {bs : List UInt8} {n : Nat} (h : 8 ≤ n) :
    CommonHeader.readFromBytes (bs.take n) = CommonHeader.readFromBytes bs := by
  simp only [CommonHeader.readFromBytes]
  rw [byteAt_take (by omega), byteAt_take (by omega), byteAt_take (by omega),
    byteAt_take (by omega), leAt_take (by omega)]

theorem parseKind_take {h : CommonHeader} {buf : List UInt8} {n dataLen len : Nat} {dig : Bool}
    (hl : layoutOf h.pduType = some (len, dig)) (hn : len ≤ n) :
    parseKind h (buf.take n) dataLen = parseKind h buf dataLen := by
  have hcases := layoutOf_hlen hl
  have h24 : 24 ≤ n := by omega
  unfold layoutOf at hl
  unfold parseKind
  by_cases h1 : h.pduType = PduType.icreq
  · simp only [h1, ↓reduceIte, true_or, Option.some.injEq, Prod.mk.injEq] at hl ⊢
    rw [List.take_take, Nat.min_eq_left (by omega)]
  by_cases h2 : h.pduType = PduType.icresp
  · simp only [h2, ↓reduceIte, or_true, Option.some.injEq, Prod.mk.injEq] at hl ⊢
    rw [List.take_take, Nat.min_eq_left (by omega)]
  by_cases h3 : h.pduType = PduType.capsuleCmd
  · rw [h3] at hl ⊢
    have h72 : 72 ≤ n := by
      simp [PduType.icreq, PduType.icresp, PduType.h2cTerm, PduType.c2hTerm,
        PduType.capsuleCmd] at hl
      omega
    rw [slice_take (by omega : 8 + 64 ≤ n), slice_take (by omega : 8 + 16 ≤ n)]
    simp [PduType.icreq, PduType.icresp, PduType.h2cTerm, PduType.c2hTerm, PduType.capsuleCmd]
  simp only [h1, h2, h3, ↓reduceIte]
  rw [slice_take (by omega : 8 + 16 ≤ n), leAt_take (by omega : 8 + 2 ≤ n),
    leAt_take (by omega : 10 + 4 ≤ n), leAt_take (by omega : 16 + 4 ≤ n),
    leAt_take (by omega : 10 + 2 ≤ n), leAt_take (by omega : 12 + 4 ≤ n)]

theorem PduDecoder.held_length {d : PduDecoder} (h : d.Wf) : d.held.length = d.have_ := by
  have h1 := h.need_le
  have h2 := h.have_le
  rw [held, List.length_take, d.buf.size, Nat.min_eq_left (by omega)]

theorem PduDecoder.Wf.headerOf {d d' : PduDecoder} {pdu : DecodedPdu} (h : d.Wf)
    (hs : d.state = .complete) (ht : d.take = .ok (pdu, d')) : HeaderOf d.held pdu := by
  have hok := fullHeaderLen_ok (h.checked (by simp [hs]))
  have htk := h.take hs ht
  have hn := h.complete hs
  obtain ⟨h24, -⟩ := hok.bounds
  obtain ⟨dig, hlay⟩ := hok.layout
  have hhdr : CommonHeader.readFromBytes d.held = d.hdr := by
    rw [held, hdr, CommonHeader.readFromBytes_take (by omega),
      CommonHeader.readFromBytes_take (by omega)]
  have hlen := held_length h
  have hplen : leAt d.held 4 4 = d.hdr.plen := by rw [← hhdr]; rfl
  have htype : byteAt d.held 0 = d.hdr.pduType := by rw [← hhdr]; rfl
  have hflags : byteAt d.held 1 = d.hdr.flags := by rw [← hhdr]; rfl
  refine ⟨?_, ?_, ?_, ?_, by omega⟩
  · rw [hlen, hn, hplen]
    exact htk.plen
  · rw [hhdr, held, parseKind_take hlay]
    · exact htk.kind
    · have := hok.len
      omega
  · rw [htype, hflags]
    exact htk.ddgst
  · intro hd
    have hf : hasFlag d.hdr.flags PduFlags.ddgst = true := by
      have := htk.ddgst
      rw [hd] at this
      simpa using (Bool.and_eq_true_iff.1 this.symm).2
    have h5 := hok.ddgst hf
    have hp := htk.plen
    rw [hd] at hp
    simp only [↓reduceIte] at hp
    omega

/-! ## The PDUs a target accepts -/

theorem HeaderOf.capsuleCmd {hdr : List UInt8} {pdu : DecodedPdu} {sqe : Sqe}
    (h : HeaderOf hdr pdu) (hk : pdu.kind = .capsuleCmd sqe) :
    byteAt hdr 0 = PduType.capsuleCmd ∧ sqe = Sqe.readFromBytes (slice hdr 8 64) ∧
      pdu.ddgst = hasFlag (byteAt hdr 1) PduFlags.ddgst := by
  have hkind := h.kind
  rw [hk] at hkind
  have hty : byteAt hdr 0 = PduType.capsuleCmd ∧ sqe = Sqe.readFromBytes (slice hdr 8 64) := by
    unfold parseKind at hkind
    repeat' split at hkind
    all_goals simp_all [CommonHeader.readFromBytes]
  refine ⟨hty.1, hty.2, ?_⟩
  rw [h.flag, hty.1]
  rfl

theorem HeaderOf.h2cData {hdr : List UInt8} {pdu : DecodedPdu} {cid ttag offset length : Nat}
    {last : Bool} (h : HeaderOf hdr pdu) (hk : pdu.kind = .h2cData cid ttag offset length last) :
    byteAt hdr 0 = PduType.h2cData ∧ ttag = leAt hdr 10 2 ∧ offset = leAt hdr 12 4 ∧
      pdu.ddgst = hasFlag (byteAt hdr 1) PduFlags.ddgst := by
  have hkind := h.kind
  rw [hk] at hkind
  have hty : byteAt hdr 0 = PduType.h2cData ∧ ttag = leAt hdr 10 2 ∧ offset = leAt hdr 12 4 := by
    unfold parseKind at hkind
    repeat' split at hkind
    all_goals simp_all [CommonHeader.readFromBytes]
  refine ⟨hty.1, hty.2.1, hty.2.2, ?_⟩
  rw [h.flag, hty.1]
  rfl

end Ioutgt.Nvme
