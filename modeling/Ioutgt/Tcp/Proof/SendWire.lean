import Ioutgt.Nvme.Proof.PduEncode
import Ioutgt.Stream.Proof.Wire

/-!
# The bytes of the NVMe/TCP send loop

The staging closure of the send loop spells, piece by piece, the encoding of the work item with the
slot's bytes as they are in memory; so the stream the sender puts on the socket is the concatenation
of the encodings in push order.

* `sendStage_stages`: the closure meets what the sender asks of it.
* `wire_spells_pushed_work`: the stream.
-/

namespace Ioutgt.Tcp

open Lib Ioutgt.Nvme Ioutgt.Uring Ioutgt.Stream

variable {sqhdDisabled hdrDigest dataDigest : Bool} {m m' : Memory}

def slotBytes (m : Memory) (segs : List Iovec) : List (List UInt8) :=
  segs.map fun e => m.load e.base e.len

def encodeWork (sqhdDisabled hdrDigest dataDigest : Bool) (m : Memory) (q : QueuedWork) : List UInt8 :=
  (stageSendWork sqhdDisabled hdrDigest dataDigest (slotBytes m q.segs) q.work).flatMap Chunk.bytes

theorem slotBytes_flatten (m : Memory) (segs : List Iovec) :
    (slotBytes m segs).flatten = gathered m segs := by
  simp [slotBytes, gathered, List.flatMap_def]

theorem rawPieces_bytes (m : Memory) : ∀ (segs : List Iovec) (n : Nat),
    (rawPieces segs n).map (StagedPiece.bytes m) = takeSegs (slotBytes m segs) n
  | [], _ => rfl
  | seg :: segs, n => by
    simp only [rawPieces, slotBytes, List.map_cons, takeSegs, Memory.load_length]
    split
    · rfl
    · rw [List.map_cons, rawPieces_bytes m segs, Memory.load_take m seg.base (Nat.min_le_right _ _)]
      rfl

theorem mem_rawPieces {ptr len : Nat} : ∀ {segs : List Iovec} {n : Nat},
    .raw ptr len ∈ rawPieces segs n → ∃ e ∈ segs, ptr = e.base ∧ len ≤ e.len
  | [], _, h => by cases h
  | seg :: segs, n, h => by
    rw [rawPieces] at h
    split at h
    · cases h
    · rcases List.mem_cons.1 h with h | h
      · obtain ⟨rfl, rfl⟩ : ptr = seg.base ∧ len = min n seg.len := by simpa using h
        exact ⟨seg, by simp, rfl, Nat.min_le_right _ _⟩
      · obtain ⟨e, he, hrest⟩ := mem_rawPieces h
        exact ⟨e, by simp [he], hrest⟩

theorem rawPieces_headerLen : ∀ (segs : List Iovec) (n : Nat),
    ((rawPieces segs n).map StagedPiece.headerLen).sum = 0
  | [], _ => rfl
  | seg :: segs, n => by
    rw [rawPieces]
    split
    · rfl
    · simp [StagedPiece.headerLen, rawPieces_headerLen segs]

/-! ## What one item takes of the arena -/

theorem finishHdr_length_le (hdgst : Bool) (hdr : List UInt8) :
    (finishHdr hdgst hdr).length ≤ hdr.length + 4 := by
  cases hdgst <;> simp [finishHdr, putHdgst]

theorem dataPdu_length (pdu : DataPdu) : pdu.asBytes.length = 24 := by
  simp [DataPdu.asBytes, CommonHeader.asBytes_length]

theorem encodeR2t_length_le (cid ttag offset length : Nat) (hdgst : Bool) :
    (encodeR2t cid ttag offset length hdgst).length ≤ 28 :=
  (finishHdr_length_le _ _).trans (by rw [dataPdu_length])

theorem encodeC2hData_length_le (cid offset length : Nat) (last success hdgst ddgst : Bool) :
    (encodeC2hData cid offset length last success hdgst ddgst).length ≤ 28 :=
  (finishHdr_length_le _ _).trans (by rw [dataPdu_length])

theorem encodeCapsuleResp_length_le (cqe : Cqe) (hdgst : Bool) :
    (encodeCapsuleResp cqe hdgst).length ≤ 28 := by
  refine (finishHdr_length_le _ _).trans ?_
  simp [Cqe.asBytes, CommonHeader.asBytes_length]

theorem sendPieces_headerLen_le (m : Memory) (q : QueuedWork) :
    ((sendPieces sqhdDisabled hdrDigest dataDigest m q).map StagedPiece.headerLen).sum ≤
      arenaPerItem := by
  obtain ⟨work, segs⟩ := q
  cases work with
  | r2t tag cid offset length =>
    have := encodeR2t_length_le cid tag offset length hdrDigest
    simp [sendPieces, StagedPiece.headerLen, arenaPerItem]
    omega
  | response c =>
    have hdata := encodeC2hData_length_le c.cqe.cid 0 c.dataLen true (successElide sqhdDisabled c)
      hdrDigest dataDigest
    have hresp := encodeCapsuleResp_length_le c.cqe hdrDigest
    have hraw := rawPieces_headerLen segs c.dataLen
    have hlast : ((if successElide sqhdDisabled c then []
        else [StagedPiece.arena (encodeCapsuleResp c.cqe hdrDigest)]).map
          StagedPiece.headerLen).sum ≤ 28 := by
      split
      · simp
      · simpa [StagedPiece.headerLen] using hresp
    have hdigest : ((if dataDigest then
        [StagedPiece.arena (toLe 4 (crc32c ((gathered m segs).take c.dataLen)).toNat)] else []).map
          StagedPiece.headerLen).sum ≤ 4 := by
      split
      · simp [StagedPiece.headerLen]
      · simp
    simp only [sendPieces, List.map_append, List.sum_append, arenaPerItem]
    split
    · simp only [List.map_append, List.sum_append, List.map_cons, List.map_nil, List.sum_cons,
        List.sum_nil, StagedPiece.headerLen, hraw]
      omega
    · simp only [List.map_nil, List.sum_nil]
      omega

/-! ## What one item spells -/

theorem sendPieces_bytes (m : Memory) (q : QueuedWork) :
    (sendPieces sqhdDisabled hdrDigest dataDigest m q).flatMap (StagedPiece.bytes m) =
      encodeWork sqhdDisabled hdrDigest dataDigest m q := by
  obtain ⟨work, segs⟩ := q
  cases work with
  | r2t tag cid offset length =>
    simp [sendPieces, encodeWork, stageSendWork, StagedPiece.bytes, Chunk.bytes]
  | response c =>
    have hraw : (rawPieces segs c.dataLen).flatMap (StagedPiece.bytes m) =
        ((c2hPayload (slotBytes m segs) c.dataLen).map Chunk.raw).flatMap Chunk.bytes := by
      rw [List.flatMap_def, rawPieces_bytes, c2hPayload, List.flatMap_def, List.map_map]
      simp [Function.comp_def, Chunk.bytes]
    have hlast : (if successElide sqhdDisabled c then []
        else [StagedPiece.arena (encodeCapsuleResp c.cqe hdrDigest)]).flatMap (StagedPiece.bytes m) =
        (if successElide sqhdDisabled c then []
          else [Chunk.arena (encodeCapsuleResp c.cqe hdrDigest)]).flatMap Chunk.bytes := by
      split
      · rfl
      · simp [StagedPiece.bytes, Chunk.bytes]
    have hdigest : (if dataDigest then
        [StagedPiece.arena (toLe 4 (crc32c ((gathered m segs).take c.dataLen)).toNat)] else []).flatMap
          (StagedPiece.bytes m) = (if dataDigest then
        [Chunk.arena (toLe 4 (crc32c ((slotBytes m segs).flatten.take c.dataLen)).toNat)]
          else []).flatMap Chunk.bytes := by
      rw [slotBytes_flatten]
      split
      · simp [StagedPiece.bytes, Chunk.bytes]
      · rfl
    simp only [sendPieces, encodeWork, stageSendWork, List.flatMap_append, hlast]
    congr 1
    split
    · simp only [List.flatMap_append, hraw, hdigest]
      simp [StagedPiece.bytes, Chunk.bytes]
    · rfl

theorem encodeWork_congr {q : QueuedWork} (h : ∀ e ∈ q.segs, ∀ a, e.Covers a → m a = m' a) :
    encodeWork sqhdDisabled hdrDigest dataDigest m q =
      encodeWork sqhdDisabled hdrDigest dataDigest m' q := by
  have hbytes : slotBytes m q.segs = slotBytes m' q.segs :=
    List.map_congr_left fun e he => Memory.load_congr fun a hlo hhi => h e he a ⟨hlo, hhi⟩
  rw [encodeWork, encodeWork, hbytes]

theorem raw_mem_sendPieces {q : QueuedWork} {ptr len : Nat}
    (h : .raw ptr len ∈ sendPieces sqhdDisabled hdrDigest dataDigest m q) :
    ∃ n, StagedPiece.raw ptr len ∈ rawPieces q.segs n := by
  obtain ⟨work, segs⟩ := q
  cases work with
  | r2t tag cid offset length => simp [sendPieces] at h
  | response c =>
    refine ⟨c.dataLen, ?_⟩
    simp only [sendPieces] at h
    rcases List.mem_append.1 h with h | h
    · split at h
      · rcases List.mem_append.1 h with h | h
        · simpa using h
        · split at h
          · simp at h
          · cases h
      · cases h
    · split at h
      · cases h
      · simp at h

/-- **The staging closure spells the encoding.** -/
theorem sendStage_stages (sqhdDisabled hdrDigest dataDigest : Bool) :
    Stages (sendStage sqhdDisabled hdrDigest dataDigest) (encodeWork sqhdDisabled hdrDigest dataDigest)
      QueuedWork.segs arenaPerItem where
  bytes m q := sendPieces_bytes m q
  reads _ _ _ h := encodeWork_congr h
  raws m q ptr len hmem a hlo hhi := by
    obtain ⟨n, hmem⟩ := raw_mem_sendPieces hmem
    obtain ⟨e, he, rfl, hlen⟩ := mem_rawPieces hmem
    exact ⟨e, he, hlo, by omega⟩
  small m q := sendPieces_headerLen_le m q

/-! ## The stream -/

/-- **The wire carries the encodings in push order.** While the others leave the arenas and the slots
of queued items alone and no fatal error occurs: what the socket has taken, then what the batch being
shipped still references, then the encodings of what waits is the concatenation of the encodings of
everything pushed, each with the slot as it was at the push; with nothing left, the wire is that. -/
theorem wire_spells_pushed_work (sqhdDisabled hdrDigest dataDigest : Bool) (sqsize : Nat)
    (poolArena : Option (Nat × Nat)) (heap : Fin 2 → Nat) (zcMinAvg : Nat) (sendZc : Bool) (m : Memory)
    (as : List (SendAction QueuedWork)) {l : Stream.Ledger QueuedWork}
    (hok : StepsOk (Stream.Ledger.step (sendStage sqhdDisabled hdrDigest dataDigest)
        (encodeWork sqhdDisabled hdrDigest dataDigest)) (fun l => Undisturbed QueuedWork.segs l.task)
      ⟨.start (.new sqsize arenaPerItem iovsPerItem poolArena heap zcMinAvg) sendZc m, []⟩ as)
    (hrun : runFrom (Stream.Ledger.step (sendStage sqhdDisabled hdrDigest dataDigest)
        (encodeWork sqhdDisabled hdrDigest dataDigest))
      ⟨.start (.new sqsize arenaPerItem iovsPerItem poolArena heap zcMinAvg) sendZc m, []⟩ as = some l)
    (hfailed : l.task.place.failed = false) :
    l.task.wire ++ gathered l.task.memory l.task.unsent ++
        l.task.waiting.flatMap (encodeWork sqhdDisabled hdrDigest dataDigest l.task.memory) = l.queued ∧
      (l.task.unsent = [] → l.task.waiting = [] → l.task.wire = l.queued) := by
  have hflow := flow_run (sendStage_stages sqhdDisabled hdrDigest dataDigest) sqsize iovsPerItem poolArena
    heap zcMinAvg sendZc m hok hrun
  refine ⟨hflow.spelled hfailed, fun hunsent hwaiting => ?_⟩
  have hspelled := hflow.spelled hfailed
  rw [hunsent, hwaiting] at hspelled
  simpa using hspelled

/-- A read's response and a bare one in one batch, sent in parts and partly by copy. -/
theorem wire_spells_pushed_work_short_then_copied :
    ∃ l : Stream.Ledger QueuedWork, runFrom (Stream.Ledger.step (sendStage false false false)
        (encodeWork false false false))
      ⟨.start (.new 2 arenaPerItem iovsPerItem none (fun i => 4096 * i) 0) true
        fun a => UInt8.ofNat a, []⟩
      shortThenCopied = some l ∧ l.task.wire = l.queued ∧ l.queued.length = 76 := by
  have hok : StepsOk (Stream.Ledger.step (sendStage false false false) (encodeWork false false false))
      (fun l => Undisturbed QueuedWork.segs l.task)
      ⟨.start (.new 2 arenaPerItem iovsPerItem none (fun i => 4096 * i) 0) true
        fun a => UInt8.ofNat a, []⟩
      shortThenCopied := by
    decide +kernel
  have hview : (runFrom (Stream.Ledger.step (sendStage false false false) (encodeWork false false false))
      ⟨.start (.new 2 arenaPerItem iovsPerItem none (fun i => 4096 * i) 0) true
        fun a => UInt8.ofNat a, []⟩
      shortThenCopied).map (fun l =>
        (l.task.place.failed, l.task.unsent, l.task.waiting, l.queued.length)) =
      some (false, [], [], 76) := by
    decide +kernel
  obtain ⟨l, hrun, hl⟩ := Option.map_eq_some_iff.1 hview
  simp only [Prod.mk.injEq] at hl
  obtain ⟨hfailed, hunsent, hwaiting, hlen⟩ := hl
  obtain ⟨-, hwire⟩ := wire_spells_pushed_work false false false 2 none (fun i => 4096 * i) 0 true
    (fun a => UInt8.ofNat a) shortThenCopied hok hrun hfailed
  exact ⟨l, hrun, hwire hunsent hwaiting, hlen⟩

end Ioutgt.Tcp
