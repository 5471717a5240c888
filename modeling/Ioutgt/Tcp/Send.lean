import Ioutgt.Nvme.PduEncode
import Ioutgt.Tcp.Queue

/-!
# Staging send work

Each unit of send work becomes a list of chunks: header pieces, copied into the batch's arena, and
payload, referenced in place from the slot's buffer.
-/

namespace Ioutgt.Tcp

open Lib Ioutgt.Nvme

inductive Chunk where
  | arena (bytes : List UInt8)
  | raw (bytes : List UInt8)
  deriving DecidableEq, Repr

def Chunk.bytes : Chunk → List UInt8
  | arena bytes => bytes
  | raw bytes => bytes

def successElide (sqhdDisabled : Bool) (c : Completion) : Bool :=
  decide (c.dataLen > 0) && sqhdDisabled && c.cqe.status == 0

def c2hPayload (segs : List (List UInt8)) (dataLen : Nat) : List (List UInt8) :=
  takeSegs segs dataLen

def stageSendWork (sqhdDisabled hdrDigest dataDigest : Bool) (segs : List (List UInt8)) :
    SendWork → List Chunk
  | .r2t tag cid offset length => [.arena (encodeR2t cid tag offset length hdrDigest)]
  | .response c =>
    let elide := successElide sqhdDisabled c
    let data :=
      if c.dataLen > 0 then
        [.arena (encodeC2hData c.cqe.cid 0 c.dataLen true elide hdrDigest dataDigest)] ++
          (c2hPayload segs c.dataLen).map .raw ++
          (if dataDigest then
            [.arena (toLe 4 (crc32c (segs.flatten.take c.dataLen)).toNat)]
          else [])
      else []
    data ++ if elide then [] else [.arena (encodeCapsuleResp c.cqe hdrDigest)]

/-- When a work item's tag may be released. -/
inductive Staged where
  | atNotif (tag : Nat)
  | atCqe (tag : Nat)
  | noRelease
  deriving DecidableEq, Repr

/-- Payload-carrying responses gate on the batch's zero-copy notification, capsule-only responses
release at the send completion, R2Ts release nothing. -/
def releaseClass : SendWork → Staged
  | .response c => if c.dataLen > 0 then .atNotif c.tag else .atCqe c.tag
  | .r2t .. => .noRelease

end Ioutgt.Tcp
