import Ioutgt.Stream.Sender

/-!
# The NVMe/TCP send loop

What `send_loop` passes to the stream sender: how one work item is staged, and the sizing of the
batches. A queued item comes with the segments of its slot's buffer.
-/

namespace Ioutgt.Tcp

open Lib Ioutgt.Core Ioutgt.Nvme Ioutgt.Uring Ioutgt.Stream

/-- Worst-case header bytes of one item. -/
def arenaPerItem : Nat := 64

/-- Worst-case iovec entries of one item: every segment of the slot, and three pieces of the arena. -/
def iovsPerItem : Nat := SlotData.maxSegs + 3

structure QueuedWork where
  work : SendWork
  segs : List Iovec
  deriving DecidableEq, Repr

def rawPieces : List Iovec → Nat → List StagedPiece
  | [], _ => []
  | seg :: segs, remaining =>
    if remaining = 0 then []
    else .raw seg.base (min remaining seg.len) :: rawPieces segs (remaining - min remaining seg.len)

/-- The pieces `stage_send_work` pushes. -/
def sendPieces (sqhdDisabled hdrDigest dataDigest : Bool) (m : Memory) (q : QueuedWork) :
    List StagedPiece :=
  match q.work with
  | .r2t tag cid offset length => [.arena (encodeR2t cid tag offset length hdrDigest)]
  | .response c =>
    let elide := successElide sqhdDisabled c
    let data :=
      if c.dataLen > 0 then
        [.arena (encodeC2hData c.cqe.cid 0 c.dataLen true elide hdrDigest dataDigest)] ++
          rawPieces q.segs c.dataLen ++
          (if dataDigest then
            [.arena (toLe 4 (crc32c ((gathered m q.segs).take c.dataLen)).toNat)]
          else [])
      else []
    data ++ if elide then [] else [.arena (encodeCapsuleResp c.cqe hdrDigest)]

def sendPayload : SendWork → Option Nat
  | .response c => if c.dataLen > 0 then some c.dataLen else none
  | .r2t .. => none

/-- Only an item that is classed by the notification references the slot's memory. -/
theorem sendPieces_gated {sqhdDisabled hdrDigest dataDigest : Bool} {m : Memory} {q : QueuedWork}
    (h : (sendPieces sqhdDisabled hdrDigest dataDigest m q).any StagedPiece.isRaw = true) :
    ∃ tag, releaseClass q.work = .atNotif tag := by
  obtain ⟨work, segs⟩ := q
  cases work with
  | r2t tag cid offset length => simp [sendPieces, StagedPiece.isRaw] at h
  | response c =>
    by_cases hlen : c.dataLen > 0
    · exact ⟨c.tag, by simp [releaseClass, hlen]⟩
    · have helide : successElide sqhdDisabled c = false := by simp [successElide, hlen]
      simp [sendPieces, hlen, helide, StagedPiece.isRaw] at h

def sendStage (sqhdDisabled hdrDigest dataDigest : Bool) (m : Memory) (q : QueuedWork) : Stage where
  pieces := sendPieces sqhdDisabled hdrDigest dataDigest m q
  payload := sendPayload q.work
  release := releaseClass q.work
  gated := sendPieces_gated

end Ioutgt.Tcp
