import Ioutgt.Nvme.Pdu

/-!
# The PDU encoders

Each encoder's header bytes, header digest included; their number is what the encoder returns.
Payload and data digest follow from the caller. Narrowing to a field's width, and 32-bit wrap of a
length, are those of the field's bytes.
-/

namespace Ioutgt.Nvme

open Lib

/-! ## Wire structures -/

def IcReq.asBytes (pdu : IcReq) : List UInt8 :=
  pdu.hdr.asBytes ++ toLe 2 pdu.pfv ++ toLe 1 pdu.hpda ++ toLe 1 pdu.digest ++
    toLe 4 pdu.maxr2t ++ pdu.rsvd

def IcResp.asBytes (pdu : IcResp) : List UInt8 :=
  pdu.hdr.asBytes ++ toLe 2 pdu.pfv ++ toLe 1 pdu.cpda ++ toLe 1 pdu.digest ++
    toLe 4 pdu.maxdata ++ pdu.rsvd

/-- H2CData, C2HData and R2T share one 24-byte layout. -/
structure DataPdu where
  hdr : CommonHeader
  cid : Nat
  ttag : Nat
  dataOffset : Nat
  dataLength : Nat
  deriving DecidableEq, Repr

def DataPdu.asBytes (pdu : DataPdu) : List UInt8 :=
  pdu.hdr.asBytes ++ toLe 2 pdu.cid ++ toLe 2 pdu.ttag ++ toLe 4 pdu.dataOffset ++
    toLe 4 pdu.dataLength ++ List.replicate 4 0

structure TermPdu where
  hdr : CommonHeader
  fes : Nat
  fei : Nat
  deriving DecidableEq, Repr

def TermPdu.asBytes (pdu : TermPdu) : List UInt8 :=
  pdu.hdr.asBytes ++ toLe 2 pdu.fes ++ toLe 4 pdu.fei ++ List.replicate 10 0

/-! ## Helpers -/

def putHdgst (hdr : List UInt8) : List UInt8 := hdr ++ toLe 4 (crc32c hdr).toNat

def finishHdr (hdgst : Bool) (hdr : List UInt8) : List UInt8 :=
  if hdgst then putHdgst hdr else hdr

def dgstLen (dgst : Bool) : Nat := if dgst then 4 else 0

def flagIf (c : Bool) (flag : Nat) : Nat := if c then flag else 0

namespace Digest
def hdgst : Nat := 1
def ddgst : Nat := 2
end Digest

def digestBits (hdgst ddgst : Bool) : Nat :=
  flagIf hdgst Digest.hdgst ||| flagIf ddgst Digest.ddgst

/-! ## Encoders -/

def encodeIcreq (hdgst ddgst : Bool) (maxr2t : Nat) : List UInt8 :=
  IcReq.asBytes
    { hdr := { pduType := PduType.icreq, flags := 0, hlen := 128, pdo := 0, plen := 128 }
      pfv := pfv10, hpda := 0, digest := digestBits hdgst ddgst, maxr2t
      rsvd := List.replicate 112 0 }

def encodeIcresp (hdgst ddgst : Bool) (maxdata : Nat) : List UInt8 :=
  IcResp.asBytes
    { hdr := { pduType := PduType.icresp, flags := 0, hlen := 128, pdo := 0, plen := 128 }
      pfv := pfv10, cpda := 0, digest := digestBits hdgst ddgst, maxdata
      rsvd := List.replicate 112 0 }

def encodeCapsuleCmd (sqe : Sqe) (hdgst : Bool) (dataLen : Nat) (ddgst : Bool) : List UInt8 :=
  let ddgst := ddgst && decide (dataLen > 0)
  let hdr : CommonHeader :=
    { pduType := PduType.capsuleCmd
      flags := flagIf hdgst PduFlags.hdgst ||| flagIf ddgst PduFlags.ddgst
      hlen := 72
      pdo := if dataLen > 0 then 72 + dgstLen hdgst else 0
      plen := 72 + dgstLen hdgst + dataLen + dgstLen ddgst }
  finishHdr hdgst (hdr.asBytes ++ sqe.asBytes)

def encodeCapsuleResp (cqe : Cqe) (hdgst : Bool) : List UInt8 :=
  let hdr : CommonHeader :=
    { pduType := PduType.capsuleResp, flags := flagIf hdgst PduFlags.hdgst, hlen := 24, pdo := 0
      plen := 24 + dgstLen hdgst }
  finishHdr hdgst (hdr.asBytes ++ cqe.asBytes)

def encodeDataPdu (pduType baseFlags cid ttag dataOffset dataLength : Nat) (hdgst ddgst : Bool) :
    List UInt8 :=
  let hdr : CommonHeader :=
    { pduType
      flags := baseFlags ||| flagIf hdgst PduFlags.hdgst ||| flagIf ddgst PduFlags.ddgst
      hlen := 24
      pdo := 24 + dgstLen hdgst
      plen := 24 + dgstLen hdgst + dataLength + dgstLen ddgst }
  finishHdr hdgst (DataPdu.asBytes { hdr, cid, ttag, dataOffset, dataLength })

def encodeC2hData (cid dataOffset dataLength : Nat) (last success hdgst ddgst : Bool) :
    List UInt8 :=
  encodeDataPdu PduType.c2hData
    (flagIf last PduFlags.dataLast ||| flagIf success PduFlags.dataSuccess) cid 0 dataOffset
    dataLength hdgst ddgst

def encodeR2t (cid ttag offset length : Nat) (hdgst : Bool) : List UInt8 :=
  let hdr : CommonHeader :=
    { pduType := PduType.r2t, flags := flagIf hdgst PduFlags.hdgst, hlen := 24, pdo := 0
      plen := 24 + dgstLen hdgst }
  finishHdr hdgst (DataPdu.asBytes { hdr, cid, ttag, dataOffset := offset, dataLength := length })

def encodeH2cData (cid ttag dataOffset dataLength : Nat) (last hdgst ddgst : Bool) : List UInt8 :=
  encodeDataPdu PduType.h2cData (flagIf last PduFlags.dataLast) cid ttag dataOffset dataLength
    hdgst ddgst

def encodeC2hTerm (error : PduError) : List UInt8 :=
  TermPdu.asBytes
    { hdr := { pduType := PduType.c2hTerm, flags := 0, hlen := 24, pdo := 0, plen := 24 }
      fes := error.fes, fei := error.fei }

end Ioutgt.Nvme
