import Ioutgt.Tcp.Proof.RecvClaim

/-!
# Every run of the receive machine

* `Inv.start`: the invariant holds when the receive loop is entered.
* `Inv.step`: every action keeps it.
* `Watched.Reachable.inv`: so it holds in every reachable state.
-/

namespace Ioutgt.Tcp

open Lib Ioutgt.Core Ioutgt.Nvme Ioutgt.Uring

variable {cfg : ConnCfg} {w : Watched}

theorem needsR2t_fabrics {sqe : Sqe} (h : sqe.opcode = AdminOpcode.fabrics) :
    needsR2t sqe = false := by
  unfold needsR2t
  rw [h]
  rfl

theorem tally_new (n b : Nat) :
    tally n (borrows b) (SlotArray.new n Sqe.zeroed).slots = 0 := by
  have h : ∀ k, tally k (borrows b) (fun _ => Slot.new Sqe.zeroed) = 0 := by
    intro k
    induction k with
    | zero => rfl
    | succ k ih =>
      rw [tally, ih]
      rfl
  exact h n

theorem LinkOk.new (cfg : ConnCfg) :
    LinkOk { queue := NvmeTcpQueue.new cfg.queue, reader := cfg.reader } .boundary where
  slots := .new _ _
  nslots := rfl
  sqhd := cfg.queue.sqsize_pos
  ring := by
    intro m hm
    unfold ConnCfg.reader at hm
    split at hm
    · cases hm
    · rename_i n hn
      cases hm
      refine ⟨.new (cfg.ring_pos n hn), fun b => ?_⟩
      exact (tally_new _ b).symm
  classic := fun _ _ _ _ => rfl

/-- A queue is set up with its Connect command in a slot, ready for the slot task. -/
theorem Conn.init_ok (cfg : ConnCfg) :
    ∃ l t, Conn.init cfg = .ok ⟨cfg.dataDigest, l, PduDecoder.new cfg.hdrDigest, .header, .fill⟩ ∧
      l.reader = cfg.reader ∧ l.queue.cfg = cfg.queue ∧ LinkOk l .boundary ∧
      l.queue.slots.slots = Function.update (fun _ => Slot.new Sqe.zeroed) t
        { Slot.new Sqe.zeroed with state := .ready, cmd := cfg.connect } := by
  have hnew := LinkOk.new cfg
  let q := NvmeTcpQueue.new cfg.queue
  rcases hnew.slots.claimTag (ε := RecvEnd) with ⟨hnone, -⟩ | ⟨t, rest, -, hlt, -, hclaim, hwf⟩
  · have hlen : (List.range cfg.queue.sqsize).length = 0 := by
      rw [show List.range cfg.queue.sqsize = [] from hnone]
      rfl
    rw [List.length_range] at hlen
    exact absurd cfg.queue.sqsize_pos (by omega)
  let s₁ : Slot Sqe := SlotArray.claimed (q.slots.slots t)
  let q₁ : NvmeTcpQueue := { q with slots := { q.slots with freeTags := rest }.put t s₁ }
  have hst : (q₁.slots.slots t).state = .receiving := by
    rw [show q₁.slots.slots t = s₁ from SlotArray.put_self _ _ _]
    rfl
  have htouch₁ : Touched q q₁ t s₁ [] := ⟨rfl, hnew.sqhd, rfl, rfl, hwf, rfl⟩
  have htouch₂ := Touched.withSlot (q := q₁)
    (s := { q₁.slots.slots t with state := .ready, cmd := cfg.connect }) hwf hnew.sqhd hlt hst
    (by simp) (by simp)
  have htouch₃ := htouch₁.trans htouch₂
  let q₂ : NvmeTcpQueue := { q₁.withSlot t { q₁.slots.slots t with
    state := .ready, cmd := cfg.connect } with traffic := true }
  have htouch : Touched q q₂ t { q₁.slots.slots t with state := .ready, cmd := cfg.connect } [] :=
    ⟨htouch₃.cfg, htouch₃.sqhd, htouch₃.slots, htouch₃.nslots, htouch₃.wf, htouch₃.send⟩
  refine ⟨⟨q₂, cfg.reader⟩, t, ?_, rfl, rfl, htouch.linkOk hnew (.of_data ?_), ?_⟩
  · unfold Conn.init
    dsimp only at hclaim ⊢
    rw [hclaim, Checked.bind_ok]
    dsimp only
    rw [NvmeTcpQueue.submit_ok (q := q₁) hlt hst, Checked.bind_ok]
    rfl
  · rw [show q₁.slots.slots t = s₁ from SlotArray.put_self _ _ _]
    rfl
  · rw [htouch.slots, show q₁.slots.slots t = s₁ from SlotArray.put_self _ _ _]
    rfl

theorem Inv.start {c : Conn} (hinit : Conn.init cfg = .ok c) : Inv (Watched.start c) .boundary := by
  obtain ⟨l, t, hok, hrd, -, hlink, hslots⟩ := Conn.init_ok cfg
  rw [hok] at hinit
  obtain rfl := Except.ok.inj hinit
  have hslot : ∀ u, l.queue.slots.slots u = Slot.new Sqe.zeroed ∨
      l.queue.slots.slots u = { Slot.new Sqe.zeroed with state := .ready, cmd := cfg.connect } := by
    intro u
    rw [hslots]
    by_cases hu : u = t
    · rw [hu, Function.update_self]
      exact .inr rfl
    · rw [Function.update_of_ne hu]
      exact .inl rfl
  refine ⟨hlink, .new _, fun hx => (by cases hx), ?_, fun u _ => ?_, fun u hx => (by cases hx),
    ⟨fun _ => ⟨rfl, rfl⟩, fun _ _ => rfl⟩, ⟨fun m hm => ?_, rfl⟩,
    fun d hd => absurd hd List.not_mem_nil, fun _ => ?_, List.prefix_rfl⟩
  · rintro (hx | ⟨_, _, _, _, hx⟩)
    · exact absurd rfl hx
    · cases hx
  · refine ⟨fun _ => ?_, fun hx => (by cases hx), ?_⟩
    · show SlotOk l u [] (l.queue.slots.slots u)
      rcases hslot u with hs | hs <;> rw [hs]
      · exact ⟨fun _ => ⟨rfl, rfl⟩, fun hx => (by cases hx), fun hx => (by cases hx)⟩
      · refine ⟨fun hx => (by cases hx), fun hx => (by cases hx), fun _ => ⟨?_, rfl, ?_⟩⟩
        · exact .nothing rfl rfl (needsR2t_fabrics cfg.connect_fabrics)
        · exact ⟨rfl, fun _ _ _ _ _ hx => (by cases hx)⟩
    · show AnswerOk cfg.dataDigest u [] [] (l.queue.slots.slots u)
      exact .fresh (by rcases hslot u with hs | hs <;> rw [hs] <;> exact fun h => nomatch h)
  · have hm' : cfg.reader = .ring m := hrd.symm.trans hm
    unfold ConnCfg.reader at hm'
    split at hm'
    · cases hm'
    · cases hm'
      rfl
  · show [] ++ ([] ++ l.reader.unread .boundary) = []
    rw [hrd]
    unfold ConnCfg.reader
    split <;> rfl

/-- **One step** of a connection, whatever acts. -/
theorem Inv.step {w' : Watched} {p : Pos} {a : Action} (h : Inv w p) (hs : w.step a = some w') :
    Inv w' (w.nextPos p a) := by
  obtain ⟨⟨c', bs⟩, hstep, rfl⟩ := Option.map_eq_some_iff.1 hs
  cases a with
  | recv xs => exact h.recv hstep
  | kernelFill xs => exact h.kernelFill hstep
  | observe => exact h.observe hstep
  | recvEnd e => exact h.recvEnd hstep
  | round => exact h.round hstep
  | drained => exact h.drained hstep
  | claim segs => exact h.claim hstep
  | recvmsg xs => exact h.recvmsg hstep
  | awaitCommand t => exact h.awaitCommand hstep
  | touch t segs => exact h.touch hstep
  | complete t result rsvd status dataLen => exact h.complete hstep
  | takeWork => exact h.takeWork hstep
  | releaseTag t => exact h.releaseTag hstep

/-- **Every run** of a connection. -/
theorem Watched.Reachable.inv (h : Watched.Reachable cfg w) : ∃ p, Inv w p := by
  obtain ⟨c, hinit, hreach⟩ := h
  have hkeep : ∀ {v v' : Watched} {a : Action}, (∃ p, Inv v p) → v.step a = some v' →
      ∃ p, Inv v' p := fun ⟨_, hi⟩ hs => ⟨_, hi.step hs⟩
  exact hreach.invariant hkeep ⟨_, Inv.start hinit⟩

theorem Watched.Reachable.got_mem_done (h : Watched.Reachable cfg w) :
    ∀ t, ∀ q ∈ w.got t, q ∈ w.done := by
  obtain ⟨c, -, hreach⟩ := h
  have hkeep : ∀ {v v' : Watched} {a : Action}, (∀ t, ∀ q ∈ v.got t, q ∈ v.done) →
      v.step a = some v' → ∀ t, ∀ q ∈ v'.got t, q ∈ v'.done := by
    intro v v' a hv hs t q hq
    obtain ⟨⟨c', bs⟩, -, rfl⟩ := Option.map_eq_some_iff.1 hs
    by_cases hf : c'.between = true ∧ v.conn.taking v.cur bs ≠ .empty
    · obtain ⟨-, hdone, hgot⟩ := v.note_finished a c' bs hf.1 hf.2
      rw [hgot] at hq
      rw [hdone, List.mem_append]
      split at hq
      · exact absurd hq List.not_mem_nil
      · split at hq
        · exact (List.mem_append.1 hq).imp_left (hv t q)
        · exact .inl (hv t q hq)
    · have hun : c'.between = false ∨ v.conn.taking v.cur bs = .empty := by
        by_cases hb : c'.between = true
        · exact .inr (by simpa using fun hne => hf ⟨hb, hne⟩)
        · exact .inl (by simpa using hb)
      obtain ⟨-, hdone, hgot⟩ := v.note_unfinished a c' bs hun
      rw [hgot] at hq
      rw [hdone]
      split at hq
      · exact absurd hq List.not_mem_nil
      · exact hv t q hq
  exact hreach.invariant hkeep fun _ q hq => absurd hq List.not_mem_nil

end Ioutgt.Tcp
