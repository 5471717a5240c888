import Ioutgt.Tcp.Proof.RecvSafe

/-!
# What a slot task is handed

* `ready_command_has_its_payload`: a command is handed over with all of its data, in order, and the
  receive path never panics on the way.
* `ready_payload_verified_iff`: when the digests of its data have all been verified.
-/

namespace Ioutgt.Tcp

open Lib Ioutgt.Nvme

variable {cfg : ConnCfg} {w : Watched} {t : Nat}

theorem Watched.Reachable.slotInv (h : Watched.Reachable cfg w)
    (ht : t < w.conn.link.queue.cfg.sqsize) : SlotInv w t := by
  obtain ⟨p, hinv⟩ := h.inv
  exact hinv.slots t (by rw [hinv.link.nslots]; exact ht)

/-- A command handed over is not the one whose payload is under way. -/
theorem Watched.Reachable.delivered (h : Watched.Reachable cfg w)
    (ht : t < w.conn.link.queue.cfg.sqsize) (hs : (w.conn.slot t).state = .ready) :
    Delivered w.conn.link t (w.got t) (w.conn.slot t) := by
  obtain ⟨p, hinv⟩ := h.inv
  refine ((h.slotInv ht).idle ?_).ready hs
  exact hinv.not_active (by rw [hs]; decide)

theorem Watched.Reachable.no_panic (h : Watched.Reachable cfg w) (e : Panic) :
    w.conn.pc ≠ .panicked e := by
  obtain ⟨p, hinv⟩ := h.inv
  intro hc
  have hpc := hinv.pc
  unfold PcOk at hpc
  simp only [hc] at hpc

/-- **Payload reassembly.** In every run, whatever the host sends and however it is cut into
receives: the receive path does not panic, so it writes only inside the slots' buffers and no
offset overflows; what it consumes is a prefix of the stream; and a command in state ready came
with no data, with that of its own capsule, or with that of H2CData PDUs for its tag whose ranges
follow one another from offset 0, its data is as long as announced, and its slot exposes exactly
those payloads in order. -/
theorem ready_command_has_its_payload (h : Watched.Reachable cfg w) :
    (∀ e, w.conn.pc ≠ .panicked e) ∧
      w.done.flatMap Pdu.bytes ++ w.cur.bytes <+: w.sent ∧
      ∀ t < w.conn.link.queue.cfg.sqsize, (w.conn.slot t).state = .ready →
        Source t (w.conn.slot t) (w.got t) ∧ (∀ p ∈ w.got t, p ∈ w.done) ∧
        (payloads (w.got t)).length = (w.conn.slot t).dataLen ∧
        (w.conn.link.dataOf (w.conn.slot t).data).take (w.conn.slot t).dataLen
          = payloads (w.got t) := by
  obtain ⟨p, hinv⟩ := h.inv
  refine ⟨h.no_panic, hinv.seen, fun t ht hs => ?_⟩
  have hd := h.delivered ht hs
  refine ⟨hd.source, h.got_mem_done t, hd.len, ?_⟩
  rw [← hd.len]
  exact hd.arrived.bytes

def solicitedWrite : List UInt8 :=
  Host.capsuleCmd 0 (Host.sqe 1 5 8 0x5a) [] []

/-- Two H2CData PDUs, cut in the middle of the first one's payload, fill a lease of two
segments. -/
theorem ready_command_has_its_payload_h2c : ∃ w, Watched.Reachable (Host.twoEntries false) w ∧
    (w.conn.slot 1).state = .ready ∧ (w.got 1).length = 2 ∧
    (w.conn.link.dataOf (w.conn.slot 1).data).take (w.conn.slot 1).dataLen
      = payloads (w.got 1) := by
  have hrun : (Watched.run (Host.twoEntries false) [.recv solicitedWrite, .round,
      .claim [[0, 0, 0, 0, 0], [0, 0, 0]], .drained,
      .recv ((Host.h2cData 0 5 1 0 [1, 2, 3] []).take 26), .round, .round, .drained,
      .recv ([3] ++ Host.h2cData PduFlags.dataLast 5 1 3 [4, 5, 6, 7, 8] []), .round, .round,
      .round]).map (fun w => ((w.conn.slot 1).state, (w.got 1).length,
        w.conn.link.queue.cfg.sqsize)) = some (.ready, 2, 2) := by
    decide +kernel
  obtain ⟨w, hr, hd⟩ := Watched.run_reachable hrun
  obtain ⟨hs, hrest⟩ := Prod.mk.inj hd
  obtain ⟨hgot, hsize⟩ := Prod.mk.inj hrest
  exact ⟨w, hr, hs, hgot, ((ready_command_has_its_payload hr).2.2 1 (by omega) hs).2.2.2⟩

/-! ## Digests -/

/-- A command whose PDUs all carried a digest, one of them wrong, is answered and not executed. -/
theorem Watched.Reachable.verified (h : Watched.Reachable cfg w) (hd : w.conn.dataDigest = true)
    (ht : t < w.conn.link.queue.cfg.sqsize) (hs : (w.conn.slot t).state ≠ .responding)
    (hf : ∀ p ∈ w.got t, p.hasDdgst = true) : ∀ p ∈ w.got t, p.Verified := by
  intro p hp
  by_contra hver
  exact hs ((h.slotInv ht).answers.mismatch hd p hp ⟨hf p hp, hver⟩).1

/-- **Digest verification.** On a connection with data digests, a command handed to its slot task
exposes the payloads that came for it, and while it is handed over or executed their digests have
all been verified iff all of the PDUs that brought them carried one. -/
theorem ready_payload_verified_iff (h : Watched.Reachable cfg w) (hd : w.conn.dataDigest = true)
    (ht : t < w.conn.link.queue.cfg.sqsize)
    (hs : (w.conn.slot t).state = .ready ∨ (w.conn.slot t).state = .executing) :
    ((w.conn.slot t).state = .ready →
        (w.conn.link.dataOf (w.conn.slot t).data).take (w.conn.slot t).dataLen
          = payloads (w.got t)) ∧
      ((∀ p ∈ w.got t, p.Verified) ↔ ∀ p ∈ w.got t, p.hasDdgst = true) := by
  have hns : (w.conn.slot t).state ≠ .responding := by
    rcases hs with hs | hs <;> rw [hs] <;> decide
  refine ⟨fun hr => ?_, fun hv p hp => (hv p hp).1, h.verified hd ht hns⟩
  have hdel := h.delivered ht hr
  rw [← hdel.len]
  exact hdel.arrived.bytes

theorem ready_payload_verified_iff_capsule : ∃ w, Watched.Reachable (Host.twoEntries true) w ∧
    (w.conn.slot 1).state = .ready ∧ (w.got 1).length = 1 ∧
    ((∀ p ∈ w.got 1, p.Verified) ↔ ∀ p ∈ w.got 1, p.hasDdgst = true) := by
  have hrun : (Watched.run (Host.twoEntries true) [.recv (Host.capsuleCmd PduFlags.ddgst
      (Host.sqe 1 5 0 0) [1, 2, 3] (toLe 4 (crc32c [1, 2, 3]).toNat)), .round,
      .claim [[0, 0, 0]], .round, .round]).map (fun w => ((w.conn.slot 1).state, (w.got 1).length,
        w.conn.dataDigest, w.conn.link.queue.cfg.sqsize)) = some (.ready, 1, true, 2) := by
    decide +kernel
  obtain ⟨w, hr, hd⟩ := Watched.run_reachable hrun
  obtain ⟨hs, hrest⟩ := Prod.mk.inj hd
  obtain ⟨hgot, hrest⟩ := Prod.mk.inj hrest
  obtain ⟨hdig, hsize⟩ := Prod.mk.inj hrest
  exact ⟨w, hr, hs, hgot, (ready_payload_verified_iff hr hdig (by omega) (.inl hs)).2⟩

/-- A capsule without the DDGST flag is accepted on a connection with data digests: its payload is
handed over unverified. -/
theorem unflagged_payload_handed_over : ∃ w, Watched.Reachable (Host.twoEntries true) w ∧
    w.conn.dataDigest = true ∧ (w.conn.slot 1).state = .ready ∧ (w.got 1).length = 1 ∧
    ∃ p ∈ w.got 1, ¬p.Verified := by
  have hrun : (Watched.run (Host.twoEntries true) [.recv (Host.capsuleCmd 0 (Host.sqe 1 5 0 0)
      [1, 2, 3] []), .round, .claim [[0, 0, 0]], .round]).map (fun w => (w.conn.dataDigest,
        (w.conn.slot 1).state, (w.got 1).map fun p => decide p.Verified))
        = some (true, .ready, [false]) := by
    decide +kernel
  obtain ⟨w, hr, hd⟩ := Watched.run_reachable hrun
  obtain ⟨hdig, hrest⟩ := Prod.mk.inj hd
  obtain ⟨hs, hgot⟩ := Prod.mk.inj hrest
  obtain ⟨p, hp, hv⟩ := List.mem_map.1
    (show false ∈ (w.got 1).map (fun p => decide p.Verified) by rw [hgot]; simp)
  refine ⟨w, hr, hdig, hs, ?_, p, hp, of_decide_eq_false hv⟩
  simpa using congrArg List.length hgot

end Ioutgt.Tcp
