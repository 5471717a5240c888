import Ioutgt.Nvme.PduEncode
import Ioutgt.Nvme.Proof.PduHeader
import Ioutgt.Nvme.Proof.PduStream

/-!
# What the encoders write, the decoder reads

The two halves meet at `Encoded`, which says of header bytes what the decoder will find in them.

* `Encoded.feed`, `Encoded.take`: a fresh decoder accepts encoded header bytes and returns their PDU.
* `EncodeCall.encoded`: every encoder produces encoded bytes.
* `decode_encode`: the round trip, for any cut of the bytes into chunks.
* `read_encoded_stream`: the same for whole streams of PDUs.
-/

namespace Ioutgt.Nvme

open Lib PduDecoder

variable {d : PduDecoder} {h : CommonHeader} {s : Sqe} {hdgst : Bool} {cid ttag offset length : Nat}

/-! ## The decoder's half -/

/-- The bytes `bs` are a header that a decoder with this digest setting reads as `pdu`. -/
structure Encoded (hdrDigest : Bool) (bs : List UInt8) (h : CommonHeader) (dig : Bool)
    (pdu : DecodedPdu) : Prop where
  hdr : CommonHeader.readFromBytes (bs.take 8) = h
  layout : layoutOf h.pduType = some (h.hlen, dig)
  len : bs.length = h.hlen + if dig && hdrDigest then 4 else 0
  flag : hasFlag h.flags PduFlags.hdgst = true → (dig && hdrDigest) = true
  plen : h.plen = bs.length + pdu.dataLen + if pdu.ddgst then 4 else 0
  plen_le : h.plen ≤ maxPlen
  exact : ∀ e, exactPlen h.pduType bs.length = some e → e = h.plen
  ddgst : pdu.ddgst = (dig && hasFlag h.flags PduFlags.ddgst)
  digested : hasFlag h.flags PduFlags.ddgst = true → dig = true ∧ 1 ≤ pdu.dataLen
  digest : (dig && hdrDigest) = true → leAt bs h.hlen 4 = (crc32c (bs.take h.hlen)).toNat
  pdo : h.pdo = 0 ∨ h.pdo = bs.length
  kind : parseKind h bs pdu.dataLen = .ok pdu.kind

namespace PduDecoder

theorem HdrOk.fullHeaderLen_eq {n : Nat} (h : d.HdrOk n) : d.fullHeaderLen = .ok n := by
  obtain ⟨dig, hl⟩ := h.layout
  have hd : d.hdgst = (dig && d.hdrDigest) := by simp [hdgst, hl]
  have hlen := h.len
  unfold fullHeaderLen
  simp only [readFromBytes_eq_hdr, hl, ← hd, ← hlen]
  rw [if_neg (not_not.2 rfl), if_neg, if_neg, if_neg, if_neg]
  · rintro ⟨hf, hlt⟩
    have := h.ddgst hf
    omega
  · intro hany
    cases he : exactPlen d.hdr.pduType n with
    | none => simp [he] at hany
    | some e => simp [he, h.exact e he] at hany
  · have h1 := h.plen_ge
    have h2 := h.plen_le
    omega
  · intro hf
    obtain ⟨hf, hn⟩ := Bool.and_eq_true_iff.1 hf
    rw [h.flag hf] at hn
    cases hn

end PduDecoder

section Decoder

variable {d : PduDecoder} {bs : List UInt8} {h : CommonHeader} {dig : Bool} {pdu : DecodedPdu}

theorem Encoded.hdrOk (he : Encoded d.hdrDigest bs h dig pdu)
    (hb : d.buf.bytes.take 8 = bs.take 8) : d.HdrOk bs.length := by
  have hhdr : d.hdr = h := by rw [PduDecoder.hdr, hb, he.hdr]
  have hdg : d.hdgst = (dig && d.hdrDigest) := by simp [PduDecoder.hdgst, hhdr, he.layout]
  refine ⟨⟨dig, by rw [hhdr]; exact he.layout⟩, ?_, ?_, ?_, ?_, ?_, ?_⟩
  · rw [hhdr, hdg]
    exact he.len
  · rw [hhdr, hdg]
    exact he.flag
  · rw [hhdr, he.plen]
    omega
  · rw [hhdr]
    exact he.plen_le
  · rw [hhdr]
    exact he.exact
  · rw [hhdr]
    intro hf
    obtain ⟨hdig, hone⟩ := he.digested hf
    have hdd : pdu.ddgst = true := by rw [he.ddgst, hdig, hf]; rfl
    rw [he.plen, hdd, if_pos rfl]
    omega

theorem Encoded.bounds {hdrDigest : Bool} (he : Encoded hdrDigest bs h dig pdu) :
    24 ≤ bs.length ∧ bs.length ≤ maxHdr := by
  have hlen := he.len
  have hmax : maxHdr = 128 := rfl
  rcases layoutOf_hlen he.layout with ⟨h128, hdig⟩ | h24 | h72
  · rw [hdig] at hlen
    simp at hlen
    omega
  · split at hlen <;> omega
  · split at hlen <;> omega

theorem Encoded.feed (he : Encoded d.hdrDigest bs h dig pdu) (hw : d.Wf)
    (hs : d.state = .common) (h0 : d.have_ = 0) (rest : List UInt8) :
    ∃ d', d.feed (bs ++ rest) = .ok (d', bs.length) ∧ d'.state = .complete ∧ d'.Wf ∧
      d'.held = bs ∧ d'.need = bs.length ∧ d'.hdrDigest = d.hdrDigest := by
  obtain ⟨hge, hle⟩ := he.bounds
  have h8 : (bs ++ rest).take (8 - d.have_) = bs.take 8 := by
    rw [h0, Nat.sub_zero, List.take_append_of_le_length (by omega)]
  have hlen8 : (bs.take 8).length = 8 := by rw [List.length_take]; omega
  have hpush : (d.push (bs.take 8)).buf.bytes.take 8 = bs.take 8 := by
    have hheld : (d.push (bs.take 8)).held = d.held ++ bs.take 8 :=
      held_push (by rw [hlen8, h0]; decide)
    rw [held, held, h0, List.take_zero, List.nil_append] at hheld
    have hhave : (d.push (bs.take 8)).have_ = 8 := by simp only [push, h0, hlen8]
    rwa [hhave] at hheld
  have hfull : (d.push (bs.take 8)).fullHeaderLen = .ok bs.length :=
    (Encoded.hdrOk (d := d.push (bs.take 8)) he hpush).fullHeaderLen_eq
  have hrest := Wf.enter_rest (by rw [h0, hlen8]) hfull
  have hfeed : d.feed (bs ++ rest) = .ok ({ PduDecoder.push { d.push (bs.take 8) with
      need := bs.length, state := .rest } (slice (bs ++ rest) 8 (bs.length - 8)) with
        state := .complete }, bs.length) := by
    have hhave : (d.push (bs.take 8)).have_ = 8 := by simp only [push, h0, hlen8]
    rw [feed_common_full hw hs (by rw [List.length_append, h0]; omega), h8, hfull,
      Checked.bind_ok, h0, Nat.sub_zero,
      feedLoop_rest hrest rfl (by rw [List.length_append]; omega) 0, if_neg]
    · simp only [hhave]
      congr 2
      omega
    · simp only [hhave, List.length_append]
      omega
  refine ⟨_, hfeed, rfl, ?_⟩
  have hst : d.state ≠ .complete := by rw [hs]; decide
  have hfed := hw.feed hst hfeed
  refine ⟨hfed.wf, ?_, rfl, rfl⟩
  have hheld := hfed.held
  rw [held.eq_1 d, h0, List.take_zero, List.nil_append, List.take_left] at hheld
  exact hheld

theorem Encoded.take (he : Encoded d.hdrDigest bs h dig pdu) (hw : d.Wf)
    (hs : d.state = .complete) (hheld : d.held = bs) (hneed : d.need = bs.length) :
    d.take = .ok (pdu, { d with have_ := 0, need := 8, state := .common }) := by
  obtain ⟨hge, -⟩ := he.bounds
  have hhave : d.have_ = bs.length := by rw [hw.complete hs, hneed]
  have hbuf : d.buf.bytes.take bs.length = bs := by rw [← hhave]; exact hheld
  have hhdr : d.hdr = h := by
    rw [PduDecoder.hdr, ← he.hdr]
    conv_rhs => rw [← hbuf]
    rw [List.take_take, Nat.min_eq_left (by omega)]
  have hdg : d.hdgst = (dig && d.hdrDigest) := by simp [PduDecoder.hdgst, hhdr, he.layout]
  have hle : h.hlen ≤ bs.length := by rw [he.len]; omega
  have hkind : parseKind h d.buf.bytes pdu.dataLen = .ok pdu.kind := by
    rw [← parseKind_take he.layout hle, hbuf, he.kind]
  have hdd : ((layoutOf h.pduType).any (·.2) && hasFlag h.flags PduFlags.ddgst) = pdu.ddgst := by
    rw [he.ddgst, he.layout]
    rfl
  have hdata : h.plen - bs.length - (if pdu.ddgst then 4 else 0) = pdu.dataLen := by
    rw [he.plen]
    omega
  rw [take_eq hw hs, hhdr, if_neg]
  · dsimp only
    rw [hdd, hneed, hdata, if_neg, hkind, Checked.bind_ok]
    rintro ⟨hz, hn⟩
    exact he.pdo.elim hz hn
  · rintro ⟨hd, hne⟩
    rw [hdg] at hd
    have hwire : h.hlen + 4 ≤ bs.length := by rw [he.len, if_pos hd]
    apply hne
    rw [← leAt_take hwire, hbuf, he.digest hd]
    conv_lhs => rw [← hbuf]
    rw [List.take_take, Nat.min_eq_left hle]

end Decoder

/-! ## Fields read back -/

structure CommonHeader.Fits (h : CommonHeader) : Prop where
  pduType : h.pduType < 256
  flags : h.flags < 256
  hlen : h.hlen < 256
  pdo : h.pdo < 256
  plen : h.plen < 2 ^ 32

theorem CommonHeader.asBytes_length (h : CommonHeader) : h.asBytes.length = 8 := by
  simp [CommonHeader.asBytes]

theorem CommonHeader.readFromBytes_asBytes (hf : h.Fits) (rest : List UInt8) :
    CommonHeader.readFromBytes ((h.asBytes ++ rest).take 8) = h := by
  rw [List.take_left' h.asBytes_length]
  obtain ⟨pduType, flags, hlen, pdo, plen⟩ := h
  obtain ⟨h1, h2, h3, h4, h5⟩ := hf
  have h1 : pduType < 256 ^ 1 := h1
  have h2 : flags < 256 ^ 1 := h2
  have h3 : hlen < 256 ^ 1 := h3
  have h4 : pdo < 256 ^ 1 := h4
  have h5 : plen < 256 ^ 4 := h5
  have hlast : leAt (toLe 4 plen) 0 4 = plen := by rw [leAt_toLe, Nat.mod_eq_of_lt h5]
  unfold CommonHeader.readFromBytes CommonHeader.asBytes
  simp (disch := first | assumption | simp) only [byteAt_eq_leAt, List.append_assoc,
    leAt_append_right, leAt_toLe_append, toLe_length, Nat.reduceSub, hlast]

/-- The fields of a submission queue entry fit their widths, as those of any entry in memory do. -/
structure Sqe.Fits (s : Sqe) : Prop where
  opcode : s.opcode < 256 ^ 1
  flags : s.flags < 256 ^ 1
  cid : s.cid < 256 ^ 2
  nsid : s.nsid < 256 ^ 4
  cdw2 : s.cdw2 < 256 ^ 4
  cdw3 : s.cdw3 < 256 ^ 4
  mptr : s.mptr < 256 ^ 8
  addr : s.dptr.addr < 256 ^ 8
  length : s.dptr.length < 256 ^ 4
  rsvd : s.dptr.rsvd.length = 3
  sglType : s.dptr.sglType < 256 ^ 1
  cdw10 : s.cdw10 < 256 ^ 4
  cdw11 : s.cdw11 < 256 ^ 4
  cdw12 : s.cdw12 < 256 ^ 4
  cdw13 : s.cdw13 < 256 ^ 4
  cdw14 : s.cdw14 < 256 ^ 4
  cdw15 : s.cdw15 < 256 ^ 4

theorem SglDescriptor.asBytes_length (hf : s.Fits) : s.dptr.asBytes.length = 16 := by
  simp [SglDescriptor.asBytes, hf.rsvd]

theorem Sqe.asBytes_length (hf : s.Fits) : s.asBytes.length = 64 := by
  simp [Sqe.asBytes, SglDescriptor.asBytes_length hf]

theorem SglDescriptor.readFromBytes_asBytes (hf : s.Fits) :
    SglDescriptor.readFromBytes s.dptr.asBytes = s.dptr := by
  have haddr := hf.addr
  have hlength := hf.length
  have htype := hf.sglType
  have hrsvd := hf.rsvd
  have hlast : leAt (toLe 1 s.dptr.sglType) 0 1 = s.dptr.sglType := by
    rw [leAt_toLe, Nat.mod_eq_of_lt htype]
  have hslice : slice (s.dptr.rsvd ++ toLe 1 s.dptr.sglType) 0 3 = s.dptr.rsvd := by
    rw [slice, List.drop_zero, List.take_left' hrsvd]
  unfold SglDescriptor.readFromBytes SglDescriptor.asBytes
  simp (disch := first | assumption | simp [hrsvd]) only [byteAt_eq_leAt, List.append_assoc,
    leAt_append_right, leAt_toLe_append, slice_append, toLe_length, hrsvd, Nat.reduceSub, hlast,
    hslice]

theorem Sqe.readFromBytes_asBytes (hf : s.Fits) : Sqe.readFromBytes s.asBytes = s := by
  have hd := SglDescriptor.asBytes_length hf
  obtain ⟨h1, h2, h3, h4, h5, h6, h7, -, -, -, -, h8, h9, h10, h11, h12, h13⟩ := id hf
  have hlast : leAt (toLe 4 s.cdw15) 0 4 = s.cdw15 := by rw [leAt_toLe, Nat.mod_eq_of_lt h13]
  have hslice : ∀ rest, slice (s.dptr.asBytes ++ rest) 0 16 = s.dptr.asBytes := fun rest => by
    rw [slice, List.drop_zero, List.take_left' hd]
  unfold Sqe.readFromBytes Sqe.asBytes
  simp (disch := first | assumption | simp [hd]) only [byteAt_eq_leAt, List.append_assoc,
    leAt_append_right, leAt_toLe_append, slice_append, toLe_length, hd, Nat.reduceSub, hlast,
    hslice, SglDescriptor.readFromBytes_asBytes hf]

structure Cqe.Fits (c : Cqe) : Prop where
  result : c.result < 256 ^ 4
  rsvd : c.rsvd < 256 ^ 4
  sqHead : c.sqHead < 256 ^ 2
  sqId : c.sqId < 256 ^ 2
  cid : c.cid < 256 ^ 2
  status : c.status < 256 ^ 2

theorem Cqe.readFromBytes_asBytes {c : Cqe} (hf : c.Fits) : Cqe.readFromBytes c.asBytes = c := by
  obtain ⟨h1, h2, h3, h4, h5, h6⟩ := hf
  have hlast : leAt (toLe 2 c.status) 0 2 = c.status := by rw [leAt_toLe, Nat.mod_eq_of_lt h6]
  unfold Cqe.readFromBytes Cqe.asBytes
  simp (disch := first | assumption | simp) only [List.append_assoc, leAt_append_right,
    leAt_toLe_append, toLe_length, Nat.reduceSub, hlast]

/-! ## The typed header by type -/

section Kinds

variable {h : CommonHeader} {buf : List UInt8} {n : Nat}

theorem parseKind_capsuleCmd (ht : h.pduType = PduType.capsuleCmd) :
    parseKind h buf n = .ok (.capsuleCmd (Sqe.readFromBytes (slice buf 8 64))) := by
  simp +decide [parseKind, ht]

theorem parseKind_capsuleResp (ht : h.pduType = PduType.capsuleResp) :
    parseKind h buf n = .ok (.capsuleResp (Cqe.readFromBytes (slice buf 8 16))) := by
  simp +decide [parseKind, ht]

theorem parseKind_h2cData (ht : h.pduType = PduType.h2cData) (hn : leAt buf 16 4 = n) :
    parseKind h buf n = .ok (.h2cData (leAt buf 8 2) (leAt buf 10 2) (leAt buf 12 4)
      (leAt buf 16 4) (hasFlag h.flags PduFlags.dataLast)) := by
  simp +decide [parseKind, ht, hn]

theorem parseKind_c2hData (ht : h.pduType = PduType.c2hData) :
    parseKind h buf n = .ok (.c2hData (leAt buf 8 2) (leAt buf 12 4) (leAt buf 16 4)
      (hasFlag h.flags PduFlags.dataLast) (hasFlag h.flags PduFlags.dataSuccess)) := by
  simp +decide [parseKind, ht]

theorem parseKind_r2t (ht : h.pduType = PduType.r2t) :
    parseKind h buf n = .ok (.r2t (leAt buf 8 2) (leAt buf 10 2) (leAt buf 12 4)
      (leAt buf 16 4)) := by
  simp +decide [parseKind, ht]

end Kinds

/-! ## The encoders' half -/

theorem finishHdr_length (hdgst : Bool) (hdr : List UInt8) :
    (finishHdr hdgst hdr).length = hdr.length + dgstLen hdgst := by
  cases hdgst <;> simp [finishHdr, putHdgst, dgstLen]

theorem finishHdr_take (hdgst : Bool) (hdr : List UInt8) :
    (finishHdr hdgst hdr).take hdr.length = hdr := by
  cases hdgst <;> simp [finishHdr, putHdgst]

theorem finishHdr_digest (hdr : List UInt8) :
    leAt (finishHdr true hdr) hdr.length 4 = (crc32c hdr).toNat := by
  show leAt (hdr ++ toLe 4 (crc32c hdr).toNat) hdr.length 4 = _
  rw [leAt_append_right (Nat.le_refl _), Nat.sub_self, leAt_toLe]
  exact Nat.mod_eq_of_lt (BitVec.isLt _)

theorem dgstLen_le (b : Bool) : dgstLen b ≤ 4 := by cases b <;> decide

theorem CommonHeader.Fits.of_layout {dig : Bool} (hl : layoutOf h.pduType = some (h.hlen, dig))
    (hflags : h.flags < 256) (hpdo : h.pdo = 0 ∨ h.pdo = h.hlen + dgstLen hdgst)
    (hmax : h.plen ≤ maxPlen) : h.Fits := by
  have hd := dgstLen_le hdgst
  have hlen := layoutOf_hlen hl
  refine ⟨?_, hflags, by omega, by omega, Nat.lt_of_le_of_lt hmax (by decide)⟩
  by_contra hge
  have hne : ∀ ty, ty < 256 → h.pduType ≠ ty := fun ty hty => by omega
  simp (disch := decide) [layoutOf, hne] at hl

/-- A header, from what its encoder puts into it; where it takes no digest, `hdgst` is off. -/
theorem encoded_finishHdr {hdrDigest dig : Bool} {body : List UInt8} {pdu : DecodedPdu}
    (hg : (dig && hdrDigest) = hdgst) (hflags : h.flags < 256) (hb : 8 + body.length = h.hlen)
    (hl : layoutOf h.pduType = some (h.hlen, dig)) (hflag : hasFlag h.flags PduFlags.hdgst = hdgst)
    (hdd : hasFlag h.flags PduFlags.ddgst = pdu.ddgst)
    (hone : pdu.ddgst = true → dig = true ∧ 1 ≤ pdu.dataLen)
    (hplen : h.plen = h.hlen + dgstLen hdgst + pdu.dataLen + dgstLen pdu.ddgst)
    (hmax : h.plen ≤ maxPlen)
    (hexact : ∀ e, exactPlen h.pduType (h.hlen + dgstLen hdgst) = some e → e = h.plen)
    (hpdo : h.pdo = 0 ∨ h.pdo = h.hlen + dgstLen hdgst)
    (hkind : parseKind h (h.asBytes ++ body) pdu.dataLen = .ok pdu.kind) :
    Encoded hdrDigest (finishHdr hdgst (h.asBytes ++ body)) h dig pdu := by
  have hlen : (h.asBytes ++ body).length = h.hlen := by
    rw [List.length_append, h.asBytes_length, hb]
  have hbs : (finishHdr hdgst (h.asBytes ++ body)).length = h.hlen + dgstLen hdgst := by
    rw [finishHdr_length, hlen]
  have htake : (finishHdr hdgst (h.asBytes ++ body)).take h.hlen = h.asBytes ++ body := by
    rw [← hlen]
    exact finishHdr_take ..
  have h8 : (finishHdr hdgst (h.asBytes ++ body)).take 8 = (h.asBytes ++ body).take 8 := by
    conv_rhs => rw [← htake]
    rw [List.take_take, Nat.min_eq_left (by omega)]
  refine ⟨?_, hl, ?_, ?_, ?_, hmax, ?_, ?_, ?_, ?_, ?_, ?_⟩
  · rw [h8]
    exact CommonHeader.readFromBytes_asBytes (.of_layout hl hflags hpdo hmax) body
  · rw [hbs, hg]
    rfl
  · rw [hflag, hg]
    exact id
  · rw [hbs, hplen]
    rfl
  · rw [hbs]
    exact hexact
  · rw [hdd]
    cases hd : pdu.ddgst with
    | false => exact (Bool.and_false dig).symm
    | true => rw [(hone hd).1]; rfl
  · rw [hdd]
    exact hone
  · intro hd
    rw [htake, hg.symm.trans hd, ← hlen]
    exact finishHdr_digest _
  · rw [hbs]
    exact hpdo
  · rw [← parseKind_take hl (Nat.le_refl _), htake, hkind]

/-- A call of an encoder; the header-digest setting is the connection's. -/
inductive EncodeCall where
  | icreq (hdgst ddgst : Bool) (maxr2t : Nat)
  | icresp (hdgst ddgst : Bool) (maxdata : Nat)
  | capsuleCmd (sqe : Sqe) (dataLen : Nat) (ddgst : Bool)
  | capsuleResp (cqe : Cqe)
  | h2cData (cid ttag offset length : Nat) (last ddgst : Bool)
  | c2hData (cid offset length : Nat) (last success ddgst : Bool)
  | r2t (cid ttag offset length : Nat)
  | c2hTerm (error : PduError)

namespace EncodeCall

def encode (hdrDigest : Bool) : EncodeCall → List UInt8
  | icreq hdgst ddgst maxr2t => encodeIcreq hdgst ddgst maxr2t
  | icresp hdgst ddgst maxdata => encodeIcresp hdgst ddgst maxdata
  | capsuleCmd sqe dataLen ddgst => encodeCapsuleCmd sqe hdrDigest dataLen ddgst
  | capsuleResp cqe => encodeCapsuleResp cqe hdrDigest
  | h2cData cid ttag offset length last ddgst =>
    encodeH2cData cid ttag offset length last hdrDigest ddgst
  | c2hData cid offset length last success ddgst =>
    encodeC2hData cid offset length last success hdrDigest ddgst
  | r2t cid ttag offset length => encodeR2t cid ttag offset length hdrDigest
  | c2hTerm error => encodeC2hTerm error

def pdu : EncodeCall → DecodedPdu
  | icreq hdgst ddgst maxr2t =>
    { kind := .icReq
        { hdr := { pduType := PduType.icreq, flags := 0, hlen := 128, pdo := 0, plen := 128 }
          pfv := pfv10, hpda := 0, digest := digestBits hdgst ddgst, maxr2t
          rsvd := List.replicate 112 0 }
      dataLen := 0, ddgst := false }
  | icresp hdgst ddgst maxdata =>
    { kind := .icResp
        { hdr := { pduType := PduType.icresp, flags := 0, hlen := 128, pdo := 0, plen := 128 }
          pfv := pfv10, cpda := 0, digest := digestBits hdgst ddgst, maxdata
          rsvd := List.replicate 112 0 }
      dataLen := 0, ddgst := false }
  | capsuleCmd sqe dataLen ddgst => { kind := .capsuleCmd sqe, dataLen, ddgst }
  | capsuleResp cqe => { kind := .capsuleResp cqe, dataLen := 0, ddgst := false }
  | h2cData cid ttag offset length last ddgst =>
    { kind := .h2cData cid ttag offset length last, dataLen := length, ddgst }
  | c2hData cid offset length last success ddgst =>
    { kind := .c2hData cid offset length last success, dataLen := length, ddgst }
  | r2t cid ttag offset length =>
    { kind := .r2t cid ttag offset length, dataLen := 0, ddgst := false }
  -- the decoder has one kind for both directions of a termination request
  | c2hTerm error => { kind := .h2cTerm error.fes error.fei, dataLen := 0, ddgst := false }

/-- The arguments fit their types, a requested data digest has data, and the PDU is within the
decoder's maximum. -/
def Accepts (hdrDigest : Bool) : EncodeCall → Prop
  | icreq _ _ maxr2t => maxr2t < 256 ^ 4
  | icresp _ _ maxdata => maxdata < 256 ^ 4
  | capsuleCmd sqe dataLen ddgst =>
    sqe.Fits ∧ (ddgst = true → 1 ≤ dataLen) ∧
      72 + dgstLen hdrDigest + dataLen + dgstLen ddgst ≤ maxPlen
  | capsuleResp cqe => cqe.Fits
  | h2cData cid ttag offset length _ ddgst =>
    cid < 256 ^ 2 ∧ ttag < 256 ^ 2 ∧ offset < 256 ^ 4 ∧ (ddgst = true → 1 ≤ length) ∧
      24 + dgstLen hdrDigest + length + dgstLen ddgst ≤ maxPlen
  | c2hData cid offset length _ _ ddgst =>
    cid < 256 ^ 2 ∧ offset < 256 ^ 4 ∧ (ddgst = true → 1 ≤ length) ∧
      24 + dgstLen hdrDigest + length + dgstLen ddgst ≤ maxPlen
  | r2t cid ttag offset length =>
    cid < 256 ^ 2 ∧ ttag < 256 ^ 2 ∧ offset < 256 ^ 4 ∧ length < 256 ^ 4
  | c2hTerm error => error.fes < 256 ^ 2 ∧ error.fei < 256 ^ 4

end EncodeCall

theorem dataFlags : ∀ last success hdgst ddgst : Bool,
    (flagIf last PduFlags.dataLast ||| flagIf success PduFlags.dataSuccess |||
        flagIf hdgst PduFlags.hdgst ||| flagIf ddgst PduFlags.ddgst) < 256 ∧
      ∀ f, f = (flagIf last PduFlags.dataLast ||| flagIf success PduFlags.dataSuccess |||
        flagIf hdgst PduFlags.hdgst ||| flagIf ddgst PduFlags.ddgst) →
      hasFlag f PduFlags.hdgst = hdgst ∧ hasFlag f PduFlags.ddgst = ddgst ∧
        hasFlag f PduFlags.dataLast = last ∧ hasFlag f PduFlags.dataSuccess = success := by
  intro last success hdgst ddgst
  refine ⟨by revert last success hdgst ddgst; decide, ?_⟩
  rintro f rfl
  revert last success hdgst ddgst
  decide

theorem dataPdu_fields (h : CommonHeader) (h1 : cid < 256 ^ 2) (h2 : ttag < 256 ^ 2)
    (h3 : offset < 256 ^ 4) (h4 : length < 256 ^ 4) :
    ∀ bs, bs = h.asBytes ++ (toLe 2 cid ++ (toLe 2 ttag ++ (toLe 4 offset ++ (toLe 4 length ++
        List.replicate 4 0)))) →
      leAt bs 8 2 = cid ∧ leAt bs 10 2 = ttag ∧ leAt bs 12 4 = offset ∧ leAt bs 16 4 = length := by
  rintro bs rfl
  have h8 := h.asBytes_length
  refine ⟨?_, ?_, ?_, ?_⟩ <;>
    simp (disch := first | assumption | simp [h8]) only [leAt_append_right, leAt_toLe_append,
      toLe_length, h8, Nat.reduceSub]

theorem DataPdu.asBytes_eq (pdu : DataPdu) : pdu.asBytes = pdu.hdr.asBytes ++ (toLe 2 pdu.cid ++
    (toLe 2 pdu.ttag ++ (toLe 4 pdu.dataOffset ++ (toLe 4 pdu.dataLength ++
      List.replicate 4 0)))) := by
  simp only [DataPdu.asBytes, List.append_assoc]

theorem encoded_dataPdu {pduType : Nat} {ddgst : Bool} (last success : Bool) (kind : PduKind)
    (hty : pduType = PduType.h2cData ∨ pduType = PduType.c2hData) (h1 : cid < 256 ^ 2)
    (h2 : ttag < 256 ^ 2) (h3 : offset < 256 ^ 4) (hone : ddgst = true → 1 ≤ length)
    (hmax : 24 + dgstLen hdgst + length + dgstLen ddgst ≤ maxPlen)
    (hkind : ∀ h bs, h.pduType = pduType → hasFlag h.flags PduFlags.dataLast = last →
      hasFlag h.flags PduFlags.dataSuccess = success → leAt bs 8 2 = cid → leAt bs 10 2 = ttag →
      leAt bs 12 4 = offset → leAt bs 16 4 = length → parseKind h bs length = .ok kind) :
    ∃ h dig, Encoded hdgst (encodeDataPdu pduType (flagIf last PduFlags.dataLast |||
      flagIf success PduFlags.dataSuccess) cid ttag offset length hdgst ddgst) h dig
      { kind, dataLen := length, ddgst } := by
  obtain ⟨hlt, hflags⟩ := dataFlags last success hdgst ddgst
  obtain ⟨f1, f2, f3, f4⟩ := hflags _ rfl
  have hM : maxPlen = 33554432 := rfl
  have h4 : length < 256 ^ 4 := by omega
  unfold encodeDataPdu
  simp only [DataPdu.asBytes_eq]
  obtain ⟨r1, r2, r3, r4⟩ := dataPdu_fields _ h1 h2 h3 h4 _ rfl
  refine ⟨_, true, encoded_finishHdr rfl hlt ?_ ?_ f1 f2 (fun h => ⟨rfl, hone h⟩) rfl hmax ?_ (.inr rfl)
    (hkind _ _ rfl f3 f4 r1 r2 r3 r4)⟩
  · simp
  · rcases hty with rfl | rfl <;> rfl
  · rcases hty with rfl | rfl <;> exact fun e he => by cases he

theorem icPdu_fields {digest limit : Nat} (hf : h.Fits) (h1 : digest < 256 ^ 1)
    (h2 : limit < 256 ^ 4) :
    ∀ bs, bs = (h.asBytes ++ (toLe 2 pfv10 ++ (toLe 1 0 ++ (toLe 1 digest ++ (toLe 4 limit ++
        List.replicate 112 0))))).take 128 →
      CommonHeader.readFromBytes (slice bs 0 8) = h ∧ leAt bs 8 2 = pfv10 ∧ byteAt bs 10 = 0 ∧
        byteAt bs 11 = digest ∧ leAt bs 12 4 = limit ∧ slice bs 16 112 = List.replicate 112 0 := by
  intro bs hbs
  have h8 := h.asBytes_length
  have hp : pfv10 < 256 ^ 2 := by decide
  have h0 : 0 < 256 ^ 1 := by decide
  have hlast : slice (List.replicate 112 (0 : UInt8)) 0 112 = List.replicate 112 0 := by
    rw [slice, List.drop_zero, List.take_of_length_le (by rw [List.length_replicate])]
  rw [List.take_of_length_le (by simp [h8])] at hbs
  subst hbs
  refine ⟨?_, ?_, ?_, ?_, ?_, ?_⟩
  · rw [slice, List.drop_zero]
    exact CommonHeader.readFromBytes_asBytes hf _
  all_goals
    simp (disch := first | assumption | simp [h8]) only [byteAt_eq_leAt, leAt_append_right,
      slice_append, leAt_toLe_append, toLe_length, h8, Nat.reduceSub, hlast]

theorem digestBits_lt : ∀ hdgst ddgst : Bool, digestBits hdgst ddgst < 256 ^ 1 := by decide

theorem encoded_icreq (hdrDigest hdgst ddgst : Bool) {maxr2t : Nat} (hm : maxr2t < 256 ^ 4) :
    ∃ h dig, Encoded hdrDigest (encodeIcreq hdgst ddgst maxr2t) h dig
      (EncodeCall.icreq hdgst ddgst maxr2t).pdu := by
  have hf : CommonHeader.Fits
      { pduType := PduType.icreq, flags := 0, hlen := 128, pdo := 0, plen := 128 } := by
    constructor <;> decide
  obtain ⟨r1, r2, r3, r4, r5, r6⟩ := icPdu_fields hf (digestBits_lt hdgst ddgst) hm _ rfl
  unfold encodeIcreq IcReq.asBytes
  simp only [List.append_assoc]
  refine ⟨_, false, encoded_finishHdr (Bool.false_and hdrDigest) hf.flags (by simp) rfl rfl rfl
    (fun h => by cases h) rfl (by decide) (fun e he => (Option.some.inj he).symm) (.inl rfl) ?_⟩
  unfold parseKind
  rw [if_pos rfl]
  simp only [IcReq.readFromBytes, r1, r2, r3, r4, r5, r6, EncodeCall.pdu]

theorem encoded_icresp (hdrDigest hdgst ddgst : Bool) {maxdata : Nat} (hm : maxdata < 256 ^ 4) :
    ∃ h dig, Encoded hdrDigest (encodeIcresp hdgst ddgst maxdata) h dig
      (EncodeCall.icresp hdgst ddgst maxdata).pdu := by
  have hf : CommonHeader.Fits
      { pduType := PduType.icresp, flags := 0, hlen := 128, pdo := 0, plen := 128 } := by
    constructor <;> decide
  obtain ⟨r1, r2, r3, r4, r5, r6⟩ := icPdu_fields hf (digestBits_lt hdgst ddgst) hm _ rfl
  unfold encodeIcresp IcResp.asBytes
  simp only [List.append_assoc]
  refine ⟨_, false, encoded_finishHdr (Bool.false_and hdrDigest) hf.flags (by simp) rfl rfl rfl
    (fun h => by cases h) rfl (by decide) (fun e he => (Option.some.inj he).symm) (.inl rfl) ?_⟩
  unfold parseKind
  rw [if_neg (by decide), if_pos rfl]
  simp only [IcResp.readFromBytes, r1, r2, r3, r4, r5, r6, EncodeCall.pdu]

theorem encoded_c2hTerm (hdrDigest : Bool) {error : PduError} (h1 : error.fes < 256 ^ 2)
    (h2 : error.fei < 256 ^ 4) :
    ∃ h dig, Encoded hdrDigest (encodeC2hTerm error) h dig (EncodeCall.c2hTerm error).pdu := by
  unfold encodeC2hTerm TermPdu.asBytes
  simp only [List.append_assoc]
  refine ⟨_, false, encoded_finishHdr (Bool.false_and hdrDigest) (by decide) (by simp) rfl rfl rfl
    (fun h => by cases h) rfl (by decide) (fun e he => by cases he) (.inl rfl) ?_⟩
  unfold parseKind
  rw [if_neg (by decide), if_neg (by decide), if_pos (.inr rfl), if_neg (by decide)]
  simp (disch := first | assumption | simp [CommonHeader.asBytes_length]) only [leAt_append_right,
    leAt_toLe_append, toLe_length, CommonHeader.asBytes_length, Nat.reduceSub, EncodeCall.pdu]

theorem hdgstFlag : ∀ hdgst : Bool, flagIf hdgst PduFlags.hdgst < 256 ∧
    hasFlag (flagIf hdgst PduFlags.hdgst) PduFlags.hdgst = hdgst ∧
    hasFlag (flagIf hdgst PduFlags.hdgst) PduFlags.ddgst = false := by decide

theorem plen_bare_le : ∀ hdgst : Bool, 24 + dgstLen hdgst ≤ maxPlen := by decide

theorem encoded_capsuleResp (hdgst : Bool) {cqe : Cqe} (hc : cqe.Fits) :
    ∃ h dig, Encoded hdgst (encodeCapsuleResp cqe hdgst) h dig (EncodeCall.capsuleResp cqe).pdu := by
  obtain ⟨f0, f1, f2⟩ := hdgstFlag hdgst
  unfold encodeCapsuleResp
  refine ⟨_, true, encoded_finishHdr rfl f0 ?_ rfl f1 f2 (fun h => by cases h) rfl
    (plen_bare_le hdgst) (fun e he => (Option.some.inj he).symm) (.inl rfl) ?_⟩
  · show 8 + cqe.asBytes.length = 24
    rw [cqe.asBytes_length]
  · rw [parseKind_capsuleResp rfl, slice_append (by rw [CommonHeader.asBytes_length]),
      CommonHeader.asBytes_length, slice, List.drop_zero,
      List.take_of_length_le (by rw [cqe.asBytes_length]), Cqe.readFromBytes_asBytes hc]
    rfl

theorem encoded_r2t (hdgst : Bool) (h1 : cid < 256 ^ 2) (h2 : ttag < 256 ^ 2)
    (h3 : offset < 256 ^ 4) (h4 : length < 256 ^ 4) :
    ∃ h dig, Encoded hdgst (encodeR2t cid ttag offset length hdgst) h dig
      (EncodeCall.r2t cid ttag offset length).pdu := by
  obtain ⟨f0, f1, f2⟩ := hdgstFlag hdgst
  unfold encodeR2t
  simp only [DataPdu.asBytes_eq]
  refine ⟨_, true, encoded_finishHdr rfl f0 ?_ rfl f1 f2 (fun h => by cases h) rfl
    (plen_bare_le hdgst) (fun e he => (Option.some.inj he).symm) (.inl rfl) ?_⟩
  · simp
  · obtain ⟨r1, r2, r3, r4⟩ := dataPdu_fields _ h1 h2 h3 h4 _ rfl
    rw [parseKind_r2t rfl, r1, r2, r3, r4]
    rfl

theorem capsuleFlags : ∀ hdgst ddgst : Bool,
    (flagIf hdgst PduFlags.hdgst ||| flagIf ddgst PduFlags.ddgst) < 256 ∧
    hasFlag (flagIf hdgst PduFlags.hdgst ||| flagIf ddgst PduFlags.ddgst) PduFlags.hdgst = hdgst ∧
    hasFlag (flagIf hdgst PduFlags.hdgst ||| flagIf ddgst PduFlags.ddgst) PduFlags.ddgst = ddgst := by
  decide

theorem encoded_capsuleCmd (hdgst : Bool) {sqe : Sqe} {dataLen : Nat} {ddgst : Bool}
    (hs : sqe.Fits) (hone : ddgst = true → 1 ≤ dataLen)
    (hmax : 72 + dgstLen hdgst + dataLen + dgstLen ddgst ≤ maxPlen) :
    ∃ h dig, Encoded hdgst (encodeCapsuleCmd sqe hdgst dataLen ddgst) h dig
      (EncodeCall.capsuleCmd sqe dataLen ddgst).pdu := by
  -- where there is a digest there is data, so the encoder's own test changes nothing
  have hdd : (ddgst && decide (dataLen > 0)) = ddgst := by
    cases ddgst with
    | false => rfl
    | true => exact decide_eq_true (hone rfl)
  obtain ⟨f0, f1, f2⟩ := capsuleFlags hdgst ddgst
  unfold encodeCapsuleCmd
  simp only [hdd]
  refine ⟨_, true, encoded_finishHdr rfl f0 ?_ rfl f1 f2 (fun h => ⟨rfl, hone h⟩) rfl hmax
    (fun e he => by cases he) ?_ ?_⟩
  · show 8 + sqe.asBytes.length = 72
    rw [Sqe.asBytes_length hs]
  · show (if dataLen > 0 then 72 + dgstLen hdgst else 0) = 0 ∨ _
    split
    · exact .inr rfl
    · exact .inl rfl
  · rw [parseKind_capsuleCmd rfl, slice_append (by rw [CommonHeader.asBytes_length]),
      CommonHeader.asBytes_length, slice, List.drop_zero,
      List.take_of_length_le (by rw [Sqe.asBytes_length hs]), Sqe.readFromBytes_asBytes hs]
    rfl

/-- Every encoder, on arguments it accepts, writes what the decoder reads as those arguments. -/
theorem EncodeCall.encoded {hdrDigest : Bool} (call : EncodeCall) (ha : call.Accepts hdrDigest) :
    ∃ h dig, Encoded hdrDigest (call.encode hdrDigest) h dig call.pdu := by
  cases call with
  | icreq hdgst ddgst maxr2t => exact encoded_icreq hdrDigest hdgst ddgst ha
  | icresp hdgst ddgst maxdata => exact encoded_icresp hdrDigest hdgst ddgst ha
  | capsuleCmd sqe dataLen ddgst => exact encoded_capsuleCmd hdrDigest ha.1 ha.2.1 ha.2.2
  | capsuleResp cqe => exact encoded_capsuleResp hdrDigest ha
  | h2cData cid ttag offset length last ddgst =>
    obtain ⟨h1, h2, h3, hone, hmax⟩ := ha
    have he := encoded_dataPdu last false (.h2cData cid ttag offset length last) (.inl rfl)
      h1 h2 h3 hone hmax (fun h bs ht hl _ r1 r2 r3 r4 => by
        rw [parseKind_h2cData ht r4, hl, r1, r2, r3, r4])
    rwa [show (flagIf last PduFlags.dataLast ||| flagIf false PduFlags.dataSuccess)
        = flagIf last PduFlags.dataLast from Nat.or_zero _] at he
  | c2hData cid offset length last success ddgst =>
    obtain ⟨h1, h3, hone, hmax⟩ := ha
    exact encoded_dataPdu last success (.c2hData cid offset length last success)
      (.inr rfl) h1 (show 0 < 256 ^ 2 by decide) h3 hone hmax (fun h bs ht hl hs r1 _ r3 r4 => by
        rw [parseKind_c2hData ht, hl, hs, r1, r3, r4])
  | r2t cid ttag offset length => exact encoded_r2t hdrDigest ha.1 ha.2.1 ha.2.2.1 ha.2.2.2
  | c2hTerm error => exact encoded_c2hTerm hdrDigest ha.1 ha.2

/-! ## The round trip -/

structure PduDecoder.Fresh (hdrDigest : Bool) (d : PduDecoder) : Prop where
  wf : d.Wf
  state : d.state = .common
  have_ : d.have_ = 0
  hdrDigest : d.hdrDigest = hdrDigest

theorem PduDecoder.Fresh.new (hdrDigest : Bool) : (PduDecoder.new hdrDigest).Fresh hdrDigest :=
  ⟨Wf.new hdrDigest, rfl, rfl, rfl⟩

/-- Feed the chunks of the input one after another, until a header completes; how many bytes were
consumed. -/
def PduDecoder.feedChunks (d : PduDecoder) (cs : List (List UInt8)) :
    Checked PduError (PduDecoder × Nat) :=
  cs.foldlM (fun p c => feedOn c p) (d, 0)

theorem feedOn_nil (hw : d.Wf) (n : Nat) : feedOn [] (d, n) = .ok (d, n) := by
  cases hs : d.state with
  | complete => exact feedOn_done hs [] n
  | common =>
    have hlt := (hw.common hs).2
    rw [feedOn_next (by rw [hs]; decide), feed_common_short hw hs (by simpa using hlt), push_nil]
    rfl
  | rest =>
    have hlt := (hw.rest hs).2
    rw [feedOn_next (by rw [hs]; decide), feed_rest hw hs, if_pos (by simpa using hlt), push_nil]
    rfl

theorem feedOn_append (hw : d.Wf) (n : Nat) (a b : List UInt8) :
    feedOn (a ++ b) (d, n) = feedOn a (d, n) >>= feedOn b := by
  by_cases hs : d.state = .complete
  · rw [feedOn_done hs, feedOn_done hs, Checked.bind_ok, feedOn_done hs]
  · rw [feedOn_next hs, feedOn_next hs, feed_append hw hs]
    cases hf : d.feed a with
    | error e => rfl
    | ok q =>
      obtain ⟨d', k⟩ := q
      simp only [Checked.bind_ok]
      by_cases hs' : d'.state = .complete
      · rw [feedOn_done hs', feedOn_done hs', Checked.bind_ok]
      · rw [feedOn_next hs', feedOn_next hs']
        cases d'.feed b with
        | error e => rfl
        | ok r => simp only [Checked.bind_ok, Nat.add_assoc]

/-- Feeding chunks is feeding their concatenation; the induction is on the chunks, for a decoder
that may have begun a header. -/
theorem feedOn_chunks : ∀ (cs : List (List UInt8)) {d : PduDecoder} (n : Nat), d.Wf →
    cs.foldlM (fun p c => feedOn c p) (d, n) = feedOn cs.flatten (d, n)
  | [], d, n, hw => (feedOn_nil hw n).symm
  | c :: cs, d, n, hw => by
    rw [List.foldlM_cons, List.flatten_cons, feedOn_append hw]
    by_cases hs : d.state = .complete
    · rw [feedOn_done hs, Checked.bind_ok, Checked.bind_ok]
      exact feedOn_chunks cs n hw
    · rw [feedOn_next hs]
      cases hf : d.feed c with
      | error e => rfl
      | ok q =>
        rw [Checked.bind_ok, Checked.bind_ok, Checked.bind_ok]
        exact feedOn_chunks cs (n + q.2) (hw.feed hs hf).wf

/-- **Round trip.** For every encoder, all arguments it accepts and either digest setting: a
decoder between two PDUs that is fed the header in any chunks, whatever follows it in the last of
them, consumes exactly the header, returns the PDU the arguments describe, and is between two PDUs
again. -/
theorem decode_encode (hdrDigest : Bool) (call : EncodeCall) (ha : call.Accepts hdrDigest)
    (d : PduDecoder) (hd : d.Fresh hdrDigest) (cs : List (List UInt8)) (rest : List UInt8)
    (hcs : cs.flatten = call.encode hdrDigest ++ rest) :
    ∃ d' d'', d.feedChunks cs = .ok (d', (call.encode hdrDigest).length) ∧
      d'.isComplete = true ∧ d'.take = .ok (call.pdu, d'') ∧ d''.Fresh hdrDigest := by
  obtain ⟨h, dig, he⟩ := call.encoded ha
  rw [← hd.hdrDigest] at he
  obtain ⟨d', hfeed, hs, hw, hheld, hneed, hdig⟩ := he.feed hd.wf hd.state hd.have_ rest
  have hst : d.state ≠ .complete := by rw [hd.state]; decide
  refine ⟨d', { d' with have_ := 0, need := 8, state := .common }, ?_, ?_, ?_, ?_⟩
  · rw [hd.hdrDigest] at hfeed
    rw [feedChunks, feedOn_chunks cs 0 hd.wf, hcs, feedOn_next hst, hfeed, Checked.bind_ok,
      Nat.zero_add]
  · simp [isComplete, hs]
  · rw [← hdig] at he hheld hneed
    exact he.take hw hs hheld hneed
  · refine ⟨?_, rfl, rfl, hdig.trans hd.hdrDigest⟩
    constructor <;> simp

/-- A C2HData header with both digests, cut inside its common header and inside its digest, with a
byte of payload behind it. -/
theorem decode_encode_c2hData :
    ∃ d' d'', (PduDecoder.new true).feedChunks
        [(encodeC2hData 5 0 512 true true true true).take 3,
          slice (encodeC2hData 5 0 512 true true true true) 3 22,
          (encodeC2hData 5 0 512 true true true true).drop 25 ++ [7]]
        = .ok (d', (encodeC2hData 5 0 512 true true true true).length) ∧
      d'.isComplete = true ∧
      d'.take = .ok ({ kind := .c2hData 5 0 512 true true, dataLen := 512, ddgst := true }, d'') ∧
      d''.Fresh true :=
  decode_encode true (.c2hData 5 0 512 true true true)
    ⟨by decide, by decide, fun _ => by decide, by decide⟩ (PduDecoder.new true)
    (PduDecoder.Fresh.new true) _ [7] (by
      show _ = encodeC2hData 5 0 512 true true true true ++ [7]
      generalize encodeC2hData 5 0 512 true true true true = bs
      have h3 : slice bs 3 22 ++ bs.drop 25 = bs.drop 3 := by
        have h22 := List.take_append_drop 22 (bs.drop 3)
        rwa [List.drop_drop] at h22
      simp only [List.flatten_cons, List.flatten_nil, List.append_nil]
      rw [← List.append_assoc (slice bs 3 22), h3, ← List.append_assoc, List.take_append_drop])

/-! ## Streams of PDUs -/

/-- What follows a header on the wire: the payload, and its digest. -/
def DecodedPdu.behind (pdu : DecodedPdu) : Nat := pdu.dataLen + dgstLen pdu.ddgst

namespace HeaderReader

/-- The reader is between two PDUs and has read those of `out`. -/
structure Between (hdrDigest : Bool) (out : List (DecodedPdu × Nat)) (r : HeaderReader) : Prop where
  wf : ReaderWf hdrDigest r
  state : r.dec.state = .common
  have_ : r.dec.have_ = 0
  skip : r.skip = 0
  fail : r.fail = none
  out : r.out = out

variable {hdrDigest : Bool} {out : List (DecodedPdu × Nat)} {r : HeaderReader} {call : EncodeCall}
  {data : List UInt8}

theorem chunk_skip (hw : ReaderWf hdrDigest r) (hf : r.fail = none) (hk : r.skip = data.length) :
    (consumer DecodedPdu.behind).chunk r data = { r with skip := 0 } := by
  by_cases hd : data = []
  · subst hd
    rw [Consumer.chunk_nil, ← List.length_nil, ← hk]
  · have hpos := List.length_pos_iff.2 hd
    have hround : (consumer DecodedPdu.behind).round r data = _ := round_skip data (by omega)
    rw [(reader_resumable _ hdrDigest).chunk_round hw (stopped_eq_false.2 hf) hd, hround, hk,
      Nat.min_self, Nat.sub_self, List.drop_length, Consumer.chunk_nil]

theorem Between.pdu (h : Between hdrDigest out r) (ha : call.Accepts hdrDigest)
    (hl : data.length = call.pdu.behind) :
    Between hdrDigest (out ++ [(call.pdu, (call.encode hdrDigest).length)])
      ((consumer DecodedPdu.behind).chunk r (call.encode hdrDigest ++ data)) := by
  have hres := reader_resumable DecodedPdu.behind hdrDigest
  obtain ⟨hdr, dig, he⟩ := call.encoded ha
  have hne : call.encode hdrDigest ++ data ≠ [] :=
    List.ne_nil_of_length_pos (by have := he.bounds.1; rw [List.length_append]; omega)
  obtain rfl := h.wf.digest
  obtain ⟨d, hfeed, hs, hw, hheld, hneed, hdig⟩ := he.feed h.wf.dec h.state h.have_ data
  have htake : d.take = .ok (call.pdu, { d with have_ := 0, need := 8, state := .common }) := by
    rw [← hdig] at he hheld hneed
    exact he.take hw hs hheld hneed
  have hused : r.used = 0 := h.wf.used.trans h.have_
  have hround : (consumer DecodedPdu.behind).round r (call.encode r.dec.hdrDigest ++ data) =
      ({ r with
          dec := { d with have_ := 0, need := 8, state := .common }
          used := 0
          skip := data.length
          out := out ++ [(call.pdu, (call.encode r.dec.hdrDigest).length)] },
        (call.encode r.dec.hdrDigest).length) := by
    refine (round_feed _ (by rw [h.skip]; decide)).trans ?_
    simp [hfeed, isComplete, hs, htake, hused, h.out, hl]
  have hwf := hres.inv h.wf (stopped_eq_false.2 h.fail) hne
  rw [hres.chunk_round h.wf (stopped_eq_false.2 h.fail) hne, hround, List.drop_left]
  rw [hround] at hwf
  rw [chunk_skip hwf h.fail rfl]
  exact ⟨{ hwf with }, rfl, rfl, rfl, h.fail, rfl⟩

/-- **A stream of PDUs reads back.** Whatever PDUs are encoded one after another, each with as many
bytes behind its header as it announces, and however the bytes are cut into chunks: the reader
returns exactly those PDUs, each with the length of its header, and ends without an error between
two PDUs. -/
theorem read_encoded_stream (hdrDigest : Bool) (xs : List (EncodeCall × List UInt8))
    (ha : ∀ x ∈ xs, x.1.Accepts hdrDigest ∧ x.2.length = x.1.pdu.behind)
    (cs : List (List UInt8)) (hcs : cs.flatten = xs.flatMap fun x => x.1.encode hdrDigest ++ x.2) :
    Between hdrDigest (xs.map fun x => (x.1.pdu, (x.1.encode hdrDigest).length))
      (readAll DecodedPdu.behind hdrDigest cs) := by
  have hres := reader_resumable DecodedPdu.behind hdrDigest
  rw [readAll, hres.chunks_flatten (.new _), hcs]
  -- for a reader that has read some PDUs, by induction on those to come
  suffices hread : ∀ {r out}, Between hdrDigest out r →
      Between hdrDigest (out ++ xs.map fun x => (x.1.pdu, (x.1.encode hdrDigest).length))
        ((consumer DecodedPdu.behind).chunk r (xs.flatMap fun x => x.1.encode hdrDigest ++ x.2)) from
    hread ⟨.new _, rfl, rfl, rfl, rfl, rfl⟩
  clear hcs
  induction xs with
  | nil => simp
  | cons x xs ih =>
    intro r out h
    obtain ⟨hx, hl⟩ := ha x List.mem_cons_self
    rw [List.flatMap_cons, hres.chunk_append h.wf, List.map_cons, List.append_cons]
    exact ih (fun y hy => ha y (List.mem_cons_of_mem _ hy)) (h.pdu hx hl)

theorem read_encoded_stream_two :
    (readAll DecodedPdu.behind false [encodeR2t 5 1 0 512 false ++
      encodeC2hData 6 0 2 true true false false ++ [7], [8]]).out =
    [((EncodeCall.r2t 5 1 0 512).pdu, 24), ((EncodeCall.c2hData 6 0 2 true true false).pdu, 24)] :=
  (read_encoded_stream false [(.r2t 5 1 0 512, []), (.c2hData 6 0 2 true true false, [7, 8])]
    (by simp [EncodeCall.Accepts, EncodeCall.pdu, DecodedPdu.behind, dgstLen, maxPlen]) _
    (by simp [EncodeCall.encode])).out

end HeaderReader

end Ioutgt.Nvme
