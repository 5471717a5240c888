import Ioutgt.Tcp.Proof.RecvSafe

/-!
# Who has the sub-buffers of the receive ring

* `kept_step`: a step loses none.
* `ring_buffers_owned`: in every run each of them is accounted for.
-/

namespace Ioutgt.Tcp

open Lib Ioutgt.Uring

variable {w : Watched} {p : Pos} {a : Action} {c' : Conn} {bs : List UInt8} {l l' : Link}
  {cfg : ConnCfg}

theorem Link.Kept.steady (hk : l.Kept) (h : l.Steady l') : l'.Kept := by
  obtain ⟨m, hr, hk⟩ := hk
  unfold Link.Steady at h
  unfold Link.Kept
  rw [hr] at h
  generalize l'.reader = r at h
  cases h with
  | ring h => exact ⟨_, rfl, hk.steady h.1 fun b hb => .inl (by rwa [RingMode.held, h.2])⟩

theorem kept_step (h : Inv w p) (hk : w.conn.link.Kept) (hs : w.conn.step a = some (c', bs)) :
    c'.link.Kept := by
  cases a with
  | round =>
    obtain ⟨win, -, -, ⟨e, -, rfl, -⟩ | ⟨n, -, hround⟩⟩ := round_spec h hs
    · exact hk
    cases hround with
    | more | capsule => exact hk
    | opened _ _ _ _ _ _ _ _ _ _ _ _ _ ok =>
      obtain ⟨s, hstep, -⟩ := ok.step
      exact hk.steady hstep.steady
    | went _ _ _ _ _ _ _ _ _ step =>
      exact hk.steady (step.touched.linkStep h.link step.region).steady
    | mismatch _ _ _ _ _ _ failed =>
      obtain ⟨c, htouch, -⟩ := failed.touched
      exact hk.steady (htouch.linkStep h.link (.of_data rfl)).steady
  | claim segs =>
    obtain ⟨-, win, sqe, pdu, t, -, -, -, hclaim⟩ := claim_spec h hs
    cases hclaim with
    | refused _ _ _ _ step => exact hk.steady step.steady
    | accepted _ _ ok =>
      cases ok with
      | payload _ _ _ step => exact hk.steady step.steady
      | headerOnly _ _ step => exact hk.steady step.steady
  | recvmsg xs =>
    -- the direct path is not taken in ring mode
    obtain ⟨-, d, subs, iovs, pdu, segs, k, -, hclassic, -⟩ := recvmsg_spec h hs
    obtain ⟨m, hr, -⟩ := hk
    cases hr.symm.trans hclassic
  | awaitCommand t =>
    obtain ⟨l', rfl, hstep⟩ := (awaitCommand_spec h.link hs).link
    exact hk.steady hstep.steady
  | touch t segs =>
    obtain ⟨l', rfl, hstep⟩ := (touch_spec h.link hs).link
    exact hk.steady hstep.steady
  | complete t result rsvd status dataLen =>
    obtain ⟨c, htask, -⟩ := complete_spec h.link hs
    obtain ⟨l', rfl, hstep⟩ := htask.link
    exact hk.steady hstep.steady
  | releaseTag t =>
    obtain ⟨l', rfl, hstep⟩ := (releaseTag_spec h.link hs).link
    exact hk.steady hstep.steady
  | _ => exact (idles_spec h rfl hs).kept hk

/-- **No sub-buffer is lost, and none is in two hands.** In ring mode, in every run: the sub-buffers
with the kernel, filled up and still to be looked at, and being read are all different; any other
is given up by the receive loop and retained by a slot; and each counts the slots that retain a
payload in it. -/
theorem ring_buffers_owned {size : Nat} (hring : cfg.ring = some size)
    (h : Watched.Reachable cfg w) : ∃ m, w.conn.link.reader = .ring m ∧
      (m.held ++ (closed m.ring.cqes ++ m.ring.provided)).Nodup ∧
      (∀ b < nbufs, b ∉ m.held ++ (closed m.ring.cqes ++ m.ring.provided) →
        (m.ring.bufs b).awaiting = true ∧ ∃ t < w.conn.link.queue.slots.nslots,
          ∃ off len, (w.conn.slot t).data = .ring b off len) ∧
      ∀ b, (m.ring.bufs b).pending =
        tally w.conn.link.queue.slots.nslots (borrows b) w.conn.link.queue.slots.slots := by
  obtain ⟨c, hinit, hreach⟩ := h
  have hstart : c.link.Kept := by
    obtain ⟨l, t, hok, hrd, -⟩ := Conn.init_ok cfg
    obtain rfl := Except.ok.inj (hok.symm.trans hinit)
    refine ⟨_, hrd.trans (by rw [ConnCfg.reader, hring]), fun b hb hno => absurd ?_ hno⟩
    simpa [RingMode.held, BufRing.new] using hb
  have hkeep : ∀ {v v' : Watched} {a : Action}, (∃ p, Inv v p) ∧ v.conn.link.Kept →
      v.step a = some v' → (∃ p, Inv v' p) ∧ v'.conn.link.Kept := by
    rintro v v' a ⟨⟨p, hi⟩, hk⟩ hs
    refine ⟨⟨_, hi.step hs⟩, ?_⟩
    obtain ⟨⟨c', bs⟩, hstep, rfl⟩ := Option.map_eq_some_iff.1 hs
    exact kept_step hi hk hstep
  obtain ⟨⟨p, hi⟩, m, hr, hk⟩ := hreach.invariant hkeep ⟨⟨_, Inv.start hinit⟩, hstart⟩
  obtain ⟨hok, hpend⟩ := hi.link.ring m hr
  refine ⟨m, hr, hok.owned, fun b hb hno => ⟨(hk b hb hno).1, ?_⟩, hpend⟩
  by_contra hnone
  have hpos := (hk b hb hno).2
  rw [hpend b, tally_eq_zero fun t ht => ?_] at hpos
  · exact Nat.lt_irrefl _ hpos
  · exact Bool.eq_false_iff.2 fun hb => hnone ⟨t, ht, borrows_eq_true.1 hb⟩

/-- The receive loop is done with sub-buffer 0, but a slot retains its payload there. -/
theorem ring_buffers_owned_lent : ∃ cfg w, Watched.Reachable cfg w ∧ cfg.ring = some 73 ∧
    ∃ t off len, (w.conn.slot t).data = .ring 0 off len := by
  have hrun : (Watched.run
      { Host.twoEntries false with ring := some 73, ring_pos := fun _ h => by cases h; decide }
      [.kernelFill (Host.capsuleCmd 0 (Host.sqe 1 5 0 0) [7] []), .observe, .round, .claim [[0]],
        .round, .drained]).map (fun w => w.conn.link.reader.casesOn (motive := fun _ => List Nat) []
        fun m => m.held ++ (closed m.ring.cqes ++ m.ring.provided)) = some [1] := by
    decide +kernel
  obtain ⟨w, hw, hd⟩ := Watched.run_reachable hrun
  obtain ⟨m, hr, -, hlost, -⟩ := ring_buffers_owned rfl hw
  simp only [hr] at hd
  obtain ⟨-, t, -, hret⟩ := hlost 0 (by decide) (by rw [hd]; decide)
  exact ⟨_, w, hw, rfl, t, hret⟩

end Ioutgt.Tcp
