import Ioutgt.Lib.Checked
import Ioutgt.Lib.Crc32c
import Ioutgt.Nvme.Spec

/-!
# NVMe/TCP PDU definitions and the incremental header decoder

The decoder assembles PDU headers (with their header digest) from arbitrarily cut input; payload
bytes never pass through it. `PduDecoder.feed` consumes bytes towards the current header and
`PduDecoder.take` validates and parses a complete one.
-/

namespace Ioutgt.Nvme

open Lib

/-! ## Constants -/

namespace PduType
def icreq : Nat := 0x0
def icresp : Nat := 0x1
def h2cTerm : Nat := 0x2
def c2hTerm : Nat := 0x3
def capsuleCmd : Nat := 0x4
def capsuleResp : Nat := 0x5
def h2cData : Nat := 0x6
def c2hData : Nat := 0x7
def r2t : Nat := 0x9
end PduType

namespace PduFlags
def hdgst : Nat := 1
def ddgst : Nat := 2
def dataLast : Nat := 4
/-- On the final C2HData: completion is implied-successful, no response capsule follows. -/
def dataSuccess : Nat := 8
end PduFlags

-- Fatal Error Status codes for term PDUs.
namespace Fes
def invalidPduHdr : Nat := 0x1
def pduSeqErr : Nat := 0x2
def hdrDigestErr : Nat := 0x3
def dataOutOfRange : Nat := 0x4
def dataLimitExceeded : Nat := 0x5
end Fes

def pfv10 : Nat := 0

def maxHdr : Nat := 128

def maxPlen : Nat := 32 * 1024 * 1024

def hasFlag (flags mask : Nat) : Bool := flags &&& mask != 0

/-! ## Wire structures -/

structure CommonHeader where
  pduType : Nat
  flags : Nat
  hlen : Nat
  pdo : Nat
  plen : Nat
  deriving DecidableEq, Repr

def CommonHeader.readFromBytes (bs : List UInt8) : CommonHeader where
  pduType := byteAt bs 0
  flags := byteAt bs 1
  hlen := byteAt bs 2
  pdo := byteAt bs 3
  plen := leAt bs 4 4

def CommonHeader.asBytes (h : CommonHeader) : List UInt8 :=
  toLe 1 h.pduType ++ toLe 1 h.flags ++ toLe 1 h.hlen ++ toLe 1 h.pdo ++ toLe 4 h.plen

structure IcReq where
  hdr : CommonHeader
  pfv : Nat
  hpda : Nat
  digest : Nat
  maxr2t : Nat
  rsvd : List UInt8
  deriving DecidableEq, Repr

def IcReq.readFromBytes (bs : List UInt8) : IcReq where
  hdr := CommonHeader.readFromBytes (slice bs 0 8)
  pfv := leAt bs 8 2
  hpda := byteAt bs 10
  digest := byteAt bs 11
  maxr2t := leAt bs 12 4
  rsvd := slice bs 16 112

structure IcResp where
  hdr : CommonHeader
  pfv : Nat
  cpda : Nat
  digest : Nat
  maxdata : Nat
  rsvd : List UInt8
  deriving DecidableEq, Repr

def IcResp.readFromBytes (bs : List UInt8) : IcResp where
  hdr := CommonHeader.readFromBytes (slice bs 0 8)
  pfv := leAt bs 8 2
  cpda := byteAt bs 10
  digest := byteAt bs 11
  maxdata := leAt bs 12 4
  rsvd := slice bs 16 112

/-- Decode error; carries the term-PDU FES the transport should send. -/
structure PduError where
  fes : Nat
  fei : Nat
  deriving DecidableEq, Repr

def PduError.hdrField (offset : Nat) : PduError := { fes := Fes.invalidPduHdr, fei := offset }

inductive PduKind where
  | icReq (pdu : IcReq)
  | icResp (pdu : IcResp)
  | h2cTerm (fes fei : Nat)
  | capsuleCmd (sqe : Sqe)
  | capsuleResp (cqe : Cqe)
  | h2cData (cid ttag offset length : Nat) (last : Bool)
  | c2hData (cid offset length : Nat) (last success : Bool)
  | r2t (cid ttag offset length : Nat)
  deriving DecidableEq, Repr

/-- A decoded PDU header. `dataLen` payload bytes (then a 4-byte DDGST if `ddgst`) follow on the
stream; the transport consumes them. -/
structure DecodedPdu where
  kind : PduKind
  dataLen : Nat
  ddgst : Bool
  deriving DecidableEq, Repr

/-! ## The decoder -/

inductive DecodeState where
  | common
  | rest
  | complete
  deriving DecidableEq, Repr

structure PduDecoder where
  hdrDigest : Bool
  buf : Buf maxHdr
  have_ : Nat
  need : Nat
  state : DecodeState
  deriving DecidableEq

namespace PduDecoder

def new (hdrDigest : Bool) : PduDecoder :=
  { hdrDigest, buf := Buf.zero maxHdr, have_ := 0, need := 8, state := .common }

def isComplete (d : PduDecoder) : Bool := d.state == .complete

/-- Expected HLEN of a PDU type and whether its header takes a digest; `none` for an unknown
type. -/
def layoutOf (pduType : Nat) : Option (Nat × Bool) :=
  if pduType = PduType.icreq ∨ pduType = PduType.icresp then some (128, false)
  else if pduType = PduType.h2cTerm ∨ pduType = PduType.c2hTerm then some (24, false)
  else if pduType = PduType.capsuleCmd then some (72, true)
  else if pduType = PduType.capsuleResp then some (24, true)
  else if pduType = PduType.h2cData ∨ pduType = PduType.c2hData ∨ pduType = PduType.r2t then
    some (24, true)
  else none

def exactPlen (pduType headerWire : Nat) : Option Nat :=
  if pduType = PduType.icreq ∨ pduType = PduType.icresp then some 128
  else if pduType = PduType.capsuleResp ∨ pduType = PduType.r2t then some headerWire
  else none

/-- Header length (incl. HDGST where applicable) derived from the validated common header. -/
def fullHeaderLen (d : PduDecoder) : Checked PduError Nat :=
  let hdr := CommonHeader.readFromBytes (d.buf.bytes.take 8)
  match layoutOf hdr.pduType with
  | none => .raise (PduError.hdrField 0)
  | some (expectedHlen, digestable) =>
    if hdr.hlen ≠ expectedHlen then .raise (PduError.hdrField 2)
    else
      let hdgst := digestable && d.hdrDigest
      if hasFlag hdr.flags PduFlags.hdgst && !hdgst then .raise (PduError.hdrField 1)
      else
        let plen := hdr.plen
        let headerWire := expectedHlen + if hdgst then 4 else 0
        if plen < headerWire ∨ plen > maxPlen then .raise (PduError.hdrField 4)
        -- fixed-size PDUs must have an exact PLEN
        else if (exactPlen hdr.pduType headerWire).any (· != plen) then
          .raise (PduError.hdrField 4)
        -- a data digest with no data to digest is malformed
        else if hasFlag hdr.flags PduFlags.ddgst ∧ plen < headerWire + 4 + 1 then
          .raise (PduError.hdrField 4)
        else .ok (expectedHlen + if hdgst then 4 else 0)

def copyIn (d : PduDecoder) (bs : List UInt8) : Checked PduError PduDecoder :=
  match d.buf.write d.have_ bs with
  | none => .abort .indexOutOfBounds
  | some buf => .ok { d with buf, have_ := d.have_ + bs.length }

def advance (d : PduDecoder) : Checked PduError PduDecoder :=
  if d.state = .common then do
    let need ← d.fullHeaderLen
    return { d with need, state := .rest }
  else return { d with state := .complete }

/-- The loop of `feed`; `consumed` bytes of `input` are already taken. A round either returns or
moves the state forward, so three rounds are enough. -/
def feedLoop : Nat → PduDecoder → List UInt8 → Nat → Checked PduError (PduDecoder × Nat)
  | 0, _, _, _ => .abort .outOfFuel
  | fuel + 1, d, input, consumed =>
    if d.state = .complete then .ok (d, consumed)
    else do
      let want ← Checked.sub d.need d.have_
      if want > 0 then
        let left ← Checked.sub input.length consumed
        let take := min want left
        if take = 0 then .ok (d, consumed)
        else
          let d ← d.copyIn (slice input consumed take)
          let consumed := consumed + take
          if d.have_ < d.need then .ok (d, consumed)
          else
            let d ← d.advance
            feedLoop fuel d input consumed
      else
        let d ← d.advance
        feedLoop fuel d input consumed

/-- Consume bytes from `input` toward the current header; returns how many were consumed. Stops
consuming once a header completes. -/
def feed (d : PduDecoder) (input : List UInt8) : Checked PduError (PduDecoder × Nat) :=
  feedLoop 3 d input 0

/-- The typed header of the type `hdr` announces, out of the buffered bytes. -/
def parseKind (hdr : CommonHeader) (buf : List UInt8) (dataLen : Nat) : Checked PduError PduKind :=
  if hdr.pduType = PduType.icreq then .ok (.icReq (IcReq.readFromBytes (buf.take 128)))
  else if hdr.pduType = PduType.icresp then .ok (.icResp (IcResp.readFromBytes (buf.take 128)))
  else if hdr.pduType = PduType.h2cTerm ∨ hdr.pduType = PduType.c2hTerm then
    -- term PDU data (offending header copy) is bounded by 152
    if hdr.plen > 152 then .raise (PduError.hdrField 4)
    else .ok (.h2cTerm (leAt buf 8 2) (leAt buf 10 4))
  else if hdr.pduType = PduType.capsuleCmd then
    .ok (.capsuleCmd (Sqe.readFromBytes (slice buf 8 64)))
  else if hdr.pduType = PduType.capsuleResp then
    .ok (.capsuleResp (Cqe.readFromBytes (slice buf 8 16)))
  else if hdr.pduType = PduType.h2cData then
    if leAt buf 16 4 ≠ dataLen then .raise (PduError.hdrField 12)
    else .ok (.h2cData (leAt buf 8 2) (leAt buf 10 2) (leAt buf 12 4) (leAt buf 16 4)
      (hasFlag hdr.flags PduFlags.dataLast))
  else if hdr.pduType = PduType.c2hData then
    .ok (.c2hData (leAt buf 8 2) (leAt buf 12 4) (leAt buf 16 4)
      (hasFlag hdr.flags PduFlags.dataLast) (hasFlag hdr.flags PduFlags.dataSuccess))
  else if hdr.pduType = PduType.r2t then
    .ok (.r2t (leAt buf 8 2) (leAt buf 10 2) (leAt buf 12 4) (leAt buf 16 4))
  else .abort .unreachable

def take (d : PduDecoder) : Checked PduError (DecodedPdu × PduDecoder) := do
  Checked.require (d.isComplete = true) .assertFailed
  let buf := d.buf.bytes
  let hdr := CommonHeader.readFromBytes (buf.take 8)
  let hlen := hdr.hlen
  let digestable := !(hdr.pduType == PduType.icreq || hdr.pduType == PduType.icresp ||
    hdr.pduType == PduType.h2cTerm || hdr.pduType == PduType.c2hTerm)
  let hdgst := digestable && d.hdrDigest
  Checked.require (hdgst = true → hlen + 4 ≤ maxHdr) .indexOutOfBounds
  let wire := leAt buf hlen 4
  let computed := (crc32c (buf.take hlen)).toNat
  if hdgst ∧ wire ≠ computed then .raise { fes := Fes.hdrDigestErr, fei := 0 }
  else
    let ddgst := digestable && hasFlag hdr.flags PduFlags.ddgst
    let headerWire := hlen + if hdgst then 4 else 0
    let afterHeader ← Checked.sub hdr.plen headerWire
    let dataLen ← Checked.sub afterHeader (if ddgst then 4 else 0)
    -- CPDA/HPDA = 0 are negotiated: a PDO beyond the header is a protocol violation
    if hdr.pdo ≠ 0 ∧ hdr.pdo ≠ headerWire then .raise (PduError.hdrField 3)
    else
      let kind ← parseKind hdr buf dataLen
      return ({ kind, dataLen, ddgst }, { d with have_ := 0, need := 8, state := .common })

end PduDecoder

end Ioutgt.Nvme
