import Ioutgt.Tcp.Proof.TransferRun

/-!
# Wrong data digests

* `wrong_digest_fails_only_its_command`: what a wrong digest does to its command, and when the
  connection survives it.
-/

namespace Ioutgt.Tcp

open Lib Ioutgt.Nvme

/-- Whatever the host sends, its connection is in the receive machine's invariant. -/
theorem Hosted.run_inv {cfg : ConnCfg} {c : Conn} {as : List Action} {h : Hosted}
    (hinit : Conn.init cfg = .ok c)
    (hrun : runFrom Hosted.step (Hosted.start c) as = some h) : ∃ p, Inv h.watched p := by
  have hkeep : ∀ {h h' : Hosted} {a : Action}, (∃ p, Inv h.watched p) → h.step a = some h' →
      ∃ p, Inv h'.watched p := by
    rintro h h' a ⟨p, hinv⟩ hs
    obtain ⟨w', hw, rfl⟩ := Option.map_eq_some_iff.1 hs
    exact ⟨_, hinv.step hw⟩
  exact runFrom_invariant hkeep ⟨_, Inv.start hinit⟩ hrun

namespace Host

/-- A write of eight bytes is admitted with tag 1 and solicited. -/
def writeOfEight : List Action :=
  [.recv (capsuleCmd 0 (sqe 1 5 8 0x5a) [] []), .round, .claim [[0, 0, 0, 0, 0, 0, 0, 0]], .drained]

def digestOf (data : List UInt8) : List UInt8 := toLe 4 (crc32c data).toNat

def fragment (flags offset : Nat) (data digest : List UInt8) : List Action :=
  [.recv (h2cData (PduFlags.ddgst ||| flags) 5 1 offset data digest), .round, .round, .round, .drained]

end Host

def Conn.result (c : Conn) : Option RecvEnd :=
  match c.pc with
  | .ended e => e
  | _ => none

theorem Conn.ended_of_result {c : Conn} {e : RecvEnd} (h : c.result = some e) :
    c.pc = .ended (some e) := by
  unfold Conn.result at h
  split at h
  · rename_i hc
    rw [hc, h]
  · cases h

/-- **Wrong data digests.** A command for which a PDU with a wrong data digest came is answered
once, with a data transfer error, and is neither ready nor executing; and a host that conforms never
has its connection terminated for a protocol error, as long as a wrong digest is only found on the
last PDU of its transfer. -/
theorem wrong_digest_fails_only_its_command {cfg : ConnCfg} {c : Conn} {as : List Action} {h : Hosted}
    (hinit : Conn.init cfg = .ok c)
    (hrun : runFrom Hosted.step (Hosted.start c) as = some h) :
    (h.conn.dataDigest = true → ∀ t < h.conn.link.queue.cfg.sqsize,
        (∃ q ∈ h.watched.got t, q.Mismatch) → (h.conn.slot t).state = .responding ∧
          ∃ a, h.watched.answers t = [a] ∧ a.tag = t ∧ a.cqe.cid = (h.conn.slot t).cmd.cid ∧
            a.cqe.status = dataXferStatus ∧ a.dataLen = 0) ∧
      (StepsOk Hosted.step (fun h a => h.Conforms a ∧ h.WrongIsLast a) (Hosted.start c) as →
        ∀ e, h.conn.pc ≠ .ended (some (.term e))) := by
  obtain ⟨p, hinv⟩ := Hosted.run_inv hinit hrun
  refine ⟨fun hd t ht ⟨q, hq, hm⟩ => ?_, fun hok => (Hosted.run_ok hinit hok hrun).calm.alive⟩
  have hans := (hinv.slots t (by rw [hinv.link.nslots]; exact ht)).answers
  obtain ⟨hst, a, ha, hstatus, hlen⟩ := hans.mismatch hd q hq hm
  obtain ⟨a', ha', htag, hcid⟩ := hans.one hst
  rw [ha] at ha'
  obtain rfl : a = a' := by simpa using ha'
  exact ⟨hst, a, ha, htag, hcid, hstatus, hlen⟩

theorem wrong_digest_fails_only_its_command_last :
    ∃ c h, Conn.init (Host.twoEntries true) = .ok c ∧
      runFrom Hosted.step (Hosted.start c) (Host.writeOfEight ++
        Host.fragment 0 0 [1, 2, 3] (Host.digestOf [1, 2, 3]) ++
        Host.fragment PduFlags.dataLast 3 [4, 5, 6, 7, 8] [0, 0, 0, 0]) = some h ∧
      (h.conn.slot 1).state = .responding ∧ (∃ a, h.watched.answers 1 = [a] ∧
        a.cqe.status = dataXferStatus) ∧ ∀ e, h.conn.pc ≠ .ended (some (.term e)) := by
  have hrun : (Hosted.runOk (Host.twoEntries true) (fun h a => h.Conforms a ∧ h.WrongIsLast a)
      (Host.writeOfEight ++ Host.fragment 0 0 [1, 2, 3] (Host.digestOf [1, 2, 3]) ++
        Host.fragment PduFlags.dataLast 3 [4, 5, 6, 7, 8] [0, 0, 0, 0])).map (fun h =>
      ((h.watched.got 1).map fun q => decide q.Mismatch,
        h.conn.dataDigest, h.conn.link.queue.cfg.sqsize)) = some ([false, true], true, 2) := by
    decide +kernel
  obtain ⟨c, h, hinit, hok, hreach, hd⟩ := Hosted.runOk_spec hrun
  obtain ⟨hgot, hrest⟩ := Prod.mk.inj hd
  obtain ⟨hdig, hsize⟩ := Prod.mk.inj hrest
  obtain ⟨hans, halive⟩ := wrong_digest_fails_only_its_command hinit hreach
  obtain ⟨q, hq, hm⟩ := List.mem_map.1 (show true ∈ (h.watched.got 1).map
    (fun q => decide q.Mismatch) by rw [hgot]; simp)
  obtain ⟨hst, a, ha, -, -, hstatus, -⟩ := hans hdig 1 (by omega) ⟨q, hq, of_decide_eq_true hm⟩
  exact ⟨c, h, hinit, hreach, hst, ⟨a, ha, hstatus⟩, halive hok⟩

/-- The first of two PDUs carries a wrong digest: the conforming host's second PDU makes the target
terminate the connection. -/
theorem wrong_digest_terminates_connection :
    ∃ c h, Conn.init (Host.twoEntries true) = .ok c ∧
      StepsOk Hosted.step Hosted.Conforms (Hosted.start c) (Host.writeOfEight ++
        Host.fragment 0 0 [1, 2, 3] [0, 0, 0, 0] ++
        (Host.fragment PduFlags.dataLast 3 [4, 5, 6, 7, 8] (Host.digestOf [4, 5, 6, 7, 8])).take 2) ∧
      runFrom Hosted.step (Hosted.start c) (Host.writeOfEight ++
        Host.fragment 0 0 [1, 2, 3] [0, 0, 0, 0] ++
        (Host.fragment PduFlags.dataLast 3 [4, 5, 6, 7, 8] (Host.digestOf [4, 5, 6, 7, 8])).take 2)
          = some h ∧
      h.conn.pc = .ended (some (.termFes Fes.dataOutOfRange)) := by
  have hrun : (Hosted.runOk (Host.twoEntries true) Hosted.Conforms (Host.writeOfEight ++
      Host.fragment 0 0 [1, 2, 3] [0, 0, 0, 0] ++ (Host.fragment PduFlags.dataLast 3
        [4, 5, 6, 7, 8] (Host.digestOf [4, 5, 6, 7, 8])).take 2)).map (fun h => h.conn.result)
      = some (some (.termFes Fes.dataOutOfRange)) := by
    decide +kernel
  obtain ⟨c, h, hinit, hok, hreach, hpc⟩ := Hosted.runOk_spec hrun
  exact ⟨c, h, hinit, hok, hreach, Conn.ended_of_result hpc⟩

end Ioutgt.Tcp
