import Ioutgt.Tcp.Proof.RecvSafe

/-!
# PDU framing

What the machine consumes is a prefix of the host's stream, cut into the PDUs it accepted and the
one under way. `accepted_pdu_is_plen_long` says when an accepted PDU is as long as its length field
says, so that the next header is read where the next PDU begins.
-/

namespace Ioutgt.Tcp

open Lib Ioutgt.Nvme

theorem Framed.plen_iff {dd : Bool} {p : Pdu} (h : Framed dd p) :
    p.hdr.length + p.payload.length + p.digest.length = p.plen ↔
      (p.hasDdgst = true → dd = true) := by
  unfold Framed at h
  cases hf : p.hasDdgst <;> cases hd : dd <;> simp [hf, hd] at h ⊢ <;> omega

/-- **Framing.** In every run, whatever the host sends and however it is cut into receives, an
accepted PDU takes up exactly its length field's bytes of the stream iff it carries no data digest
flag that was not negotiated. -/
theorem accepted_pdu_is_plen_long {cfg : ConnCfg} {w : Watched} (h : Watched.Reachable cfg w) :
    w.done.flatMap Pdu.bytes ++ w.cur.bytes <+: w.sent ∧
      ∀ p ∈ w.done, (p.hdr.length + p.payload.length + p.digest.length = p.plen ↔
        (p.hasDdgst = true → w.conn.dataDigest = true)) := by
  obtain ⟨pos, hinv⟩ := h.inv
  exact ⟨hinv.seen, fun p hp => (hinv.done p hp).plen_iff⟩

def flaggedCapsule (digest : List UInt8) : List UInt8 :=
  Host.capsuleCmd PduFlags.ddgst (Host.sqe 1 5 0 0) [1, 2, 3, 4, 5, 6] digest

theorem accepted_pdu_is_plen_long_digest : ∃ w, Watched.Reachable (Host.twoEntries true) w ∧
    ∃ p ∈ w.done, p.plen = 82 ∧
      (p.hdr.length + p.payload.length + p.digest.length = p.plen ↔
        (p.hasDdgst = true → w.conn.dataDigest = true)) := by
  have hrun : (Watched.run (Host.twoEntries true) [.recv (flaggedCapsule
      (toLe 4 (crc32c [1, 2, 3, 4, 5, 6]).toNat)), .round, .claim [[0, 0, 0, 0, 0, 0]], .round,
      .round]).map (fun w => w.done.map Pdu.plen) = some [82] := by decide +kernel
  obtain ⟨w, hr, hd⟩ := Watched.run_reachable hrun
  obtain ⟨p, hp, hplen⟩ := List.mem_map.1 (show 82 ∈ w.done.map Pdu.plen by rw [hd]; simp)
  exact ⟨w, hr, p, hp, hplen, (accepted_pdu_is_plen_long hr).2 p hp⟩

/-- Without digests negotiated the flag is ignored when the digest should be consumed, but not
when the payload's length is computed: four bytes of the PDU are left in the stream. -/
theorem flagged_pdu_cut_short : ∃ w, Watched.Reachable (Host.twoEntries false) w ∧
    ∃ p ∈ w.done, p.plen = 82 ∧ p.hdr.length + p.payload.length + p.digest.length = 78 := by
  have hrun : (Watched.run (Host.twoEntries false) [.recv (flaggedCapsule [0, 0, 0, 0]), .round,
      .claim [[0, 0, 0, 0, 0, 0]], .round]).map (fun w => w.done.map fun p =>
        (p.plen, p.hdr.length + p.payload.length + p.digest.length)) = some [(82, 78)] := by
    decide +kernel
  obtain ⟨w, hr, hd⟩ := Watched.run_reachable hrun
  obtain ⟨p, hp, hplen⟩ := List.mem_map.1 (show (82, 78) ∈ w.done.map (fun p =>
    (p.plen, p.hdr.length + p.payload.length + p.digest.length)) by rw [hd]; simp)
  obtain ⟨h1, h2⟩ := Prod.mk.inj hplen
  exact ⟨w, hr, p, hp, h1, h2⟩

end Ioutgt.Tcp
