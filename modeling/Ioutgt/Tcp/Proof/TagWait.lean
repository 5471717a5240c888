import Ioutgt.Tcp.TagWait
import Ioutgt.Tcp.Proof.RecvSafe

/-!
# When a wait for a tag ends

* `Conn.round_awaits`: the round that brings the receive loop to `await_tag` takes a command capsule and
  leaves the slots alone.
* `Eventful.Sound`: the receive machine's invariant, and only executing requests are parked.
* `Eventful.not_holds_iff`: a tag that nobody holds is free or moves.
* `Eventful.waitEnds_task`: slot tasks keep a tag that moves moving.
* `Eventful.waitEnds_step`: what one step needs for the next wait, or the one under way, to end.
* `wait_for_tag_ends_iff`: the runs in which every wait for a tag can end.
-/

namespace Ioutgt.Tcp

open Lib Ioutgt.Core Ioutgt.Nvme Ioutgt.Uring

/-! ## Where the receive loop waits -/

namespace Conn

variable {c c' : Conn}

theorem commandDue_iff : c.commandDue = true ↔ ∃ w pdu sqe, c.pc = .inner w ∧ c.phase = .header ∧
    c.link.bytesOf w ≠ [] ∧ c.incoming w = .ok (some pdu) ∧ pdu.kind = .capsuleCmd sqe := by
  unfold commandDue
  constructor
  · intro h
    split at h
    · rename_i w hpc hphase
      split at h
      · cases h
      · rename_i hbytes
        split at h
        · rename_i hin
          exact ⟨w, _, _, hpc, hphase, hbytes, hin, rfl⟩
        · cases h
    · cases h
  · rintro ⟨w, ⟨kind, dataLen, ddgst⟩, sqe, hpc, hphase, hbytes, hin, rfl⟩
    simp only [hpc, hphase, if_neg hbytes, hin]

theorem round_awaits {w : Watched} {p : Pos} {bs : List UInt8} (h : Inv w p)
    (hs : w.conn.step .round = some (c', bs)) (ha : c'.awaitsTag = true) :
    c'.link = w.conn.link ∧ w.conn.commandDue = true := by
  obtain ⟨win, hpc, hbytes, ⟨e, -, rfl, -⟩ | ⟨n, -, hr⟩⟩ := round_spec h hs
  · cases ha
  · cases hr with
    | capsule sqe pdu hdr dec n head kind =>
      exact ⟨rfl, commandDue_iff.2 ⟨win, pdu, sqe, hpc, head.phase, hbytes, head.next, kind⟩⟩
    | _ => cases ha

/-- The command capsule that is due brings the receive loop to `await_tag`. -/
theorem round_of_commandDue (h : c.commandDue = true) :
    ∃ c' bs, c.step .round = some (c', bs) ∧ c'.awaitsTag = true := by
  obtain ⟨w, pdu, sqe, hpc, hphase, hbytes, hin, hkind⟩ := commandDue_iff.1 h
  obtain ⟨⟨dec, n⟩, hfeed, hin⟩ := Checked.bind_eq_ok.1 hin
  dsimp only at hin
  split at hin
  · rename_i hcomplete
    obtain ⟨⟨pdu', dec'⟩, htake, hin⟩ := Checked.bind_eq_ok.1 hin
    obtain rfl : pdu' = pdu := Option.some.inj (Except.ok.inj hin)
    have hround : c.round w = .ok ({ c with
        decoder := dec'
        pc := .awaitTag (w.drop n) sqe pdu'.dataLen (pdu'.ddgst && c.dataDigest) }, n) := by
      simp only [round, hphase, feedHeader, hfeed, Checked.mapErr_ok, Checked.bind_ok, hcomplete,
        htake, handlePdu, hkind]
      rfl
    simp only [step, hpc, if_neg hbytes, hround]
    exact ⟨_, _, rfl, rfl⟩
  · cases hin

theorem exhausted_iff {l : Link} {p : Pos} (h : LinkOk l p) (hl : c.link = l) :
    c.exhausted = true ↔ ∀ t < l.queue.slots.nslots, (l.queue.slots.slots t).state ≠ .free := by
  subst hl
  rw [exhausted, List.isEmpty_iff]
  constructor
  · intro hnil t ht hfree
    have hmem := (h.slots.free t).2 ⟨ht, hfree⟩
    rw [hnil] at hmem
    cases hmem
  · intro hnone
    refine List.eq_nil_iff_forall_not_mem.2 fun t ht => ?_
    obtain ⟨hlt, hfree⟩ := (h.slots.free t).1 ht
    exact hnone t hlt hfree

end Conn

namespace Eventful

/-! ## Tags that move -/

variable {e e' : Eventful} {p : Pos} {t : Nat}

structure Sound (e : Eventful) : Prop where
  inv : ∃ p, Inv e.watched p
  marked : ∀ t, e.parked t = true → (e.conn.slot t).state = .executing

theorem moving_iff : e.moving t = true ↔ (e.conn.slot t).state = .ready ∨
    ((e.conn.slot t).state = .executing ∧ e.parked t = false) ∨
    (e.conn.slot t).state = .responding := by
  unfold moving
  cases (e.conn.slot t).state <;> simp

/-- Where every tag of `Q` that is not held moves: some tag of `Q` does when none is free. -/
theorem not_holds_iff {Q : Nat → Prop} (hs : Sound e) (hQ : ∀ t, (e.conn.slot t).state = .free → Q t) :
    (∃ t < e.nslots, Q t ∧ e.holds t = false) ↔
      (e.conn.exhausted = true → ∃ t < e.nslots, Q t ∧ e.moving t = true) := by
  obtain ⟨p, hinv⟩ := hs.inv
  have hholds : ∀ t, e.holds t = false ↔ (e.conn.slot t).state = .free ∨ e.moving t = true := by
    intro t
    rw [moving_iff, holds, Bool.or_eq_false_iff, beq_eq_false_iff_ne]
    cases hparked : e.parked t with
    | true => simp [hs.marked t hparked]
    | false => cases (e.conn.slot t).state <;> simp
  have hex : e.conn.exhausted = true ↔ ∀ t < e.nslots, (e.conn.slot t).state ≠ .free :=
    Conn.exhausted_iff hinv.link rfl
  constructor
  · rintro ⟨t, ht, hq, hh⟩ hnone
    exact ⟨t, ht, hq, ((hholds t).1 hh).resolve_left (hex.1 hnone t ht)⟩
  · intro hmoves
    by_cases hnone : e.conn.exhausted = true
    · obtain ⟨t, ht, hq, hm⟩ := hmoves hnone
      exact ⟨t, ht, hq, (hholds t).2 (.inr hm)⟩
    · rw [hex] at hnone
      push Not at hnone
      obtain ⟨t, ht, hfree⟩ := hnone
      exact ⟨t, ht, hQ t hfree, (hholds t).2 (.inl hfree)⟩

theorem executing_of_request (h : e.isEventRequest t = true) : (e.conn.slot t).state = .executing := by
  simp only [isEventRequest, Bool.and_eq_true, beq_iff_eq] at h
  exact h.1.2

def after (e : Eventful) (w : Watched) : Eventful :=
  { watched := w, parked := fun t => e.parked t && (w.conn.slot t).state == .executing }

theorem step_conn {a : Action} (h : e.step (.conn a) = some e') :
    ∃ c' bs, e.conn.step a = some (c', bs) ∧ e' = e.after (e.watched.note a c' bs) := by
  obtain ⟨w, hw, rfl⟩ := Option.map_eq_some_iff.1 h
  obtain ⟨⟨c', bs⟩, hstep, rfl⟩ := Option.map_eq_some_iff.1 hw
  exact ⟨c', bs, hstep, rfl⟩

theorem Sound.step {a : TagAction} (hs : Sound e) (h : e.step a = some e') : Sound e' := by
  obtain ⟨p, hinv⟩ := hs.inv
  cases a with
  | conn a =>
    obtain ⟨w, hw, rfl⟩ := Option.map_eq_some_iff.1 h
    refine ⟨⟨_, hinv.step hw⟩, fun t ht => ?_⟩
    have ht : (e.parked t && (w.conn.slot t).state == .executing) = true := ht
    simp only [Bool.and_eq_true, beq_iff_eq] at ht
    exact ht.2
  | park tag =>
    simp only [Eventful.step] at h
    obtain ⟨hc, rfl⟩ := of_guard h
    refine ⟨⟨p, hinv⟩, fun t ht => ?_⟩
    by_cases heq : t = tag
    · subst heq
      exact executing_of_request hc
    · exact hs.marked t ((Function.update_of_ne heq _ _).symm.trans ht)

theorem moving_after {w : Watched} (hslot : w.conn.slot t = e.conn.slot t) (hm : e.moving t = true) :
    (e.after w).moving t = true := by
  rw [moving_iff] at hm ⊢
  show (w.conn.slot t).state = .ready ∨ ((w.conn.slot t).state = .executing ∧
    (e.parked t && (w.conn.slot t).state == .executing) = false) ∨ (w.conn.slot t).state = .responding
  rw [hslot]
  rcases hm with h | ⟨h, hp⟩ | h
  · exact .inl h
  · exact .inr (.inl ⟨h, by rw [hp]; rfl⟩)
  · exact .inr (.inr h)

theorem waitEnds_same {w : Watched} (hw : e.WaitEnds) (hpc : w.conn.awaitsTag = e.conn.awaitsTag)
    (hslots : w.conn.link.queue.slots = e.conn.link.queue.slots) : (e.after w).WaitEnds := by
  intro hawaits hex
  have hex' : e.conn.exhausted = true := by
    unfold Conn.exhausted
    rw [← hslots]
    exact hex
  obtain ⟨t, ht, hm⟩ := hw (hpc ▸ hawaits) hex'
  refine ⟨t, ?_, moving_after ?_ hm⟩
  · show t < w.conn.link.queue.slots.nslots
    rw [hslots]
    exact ht
  · unfold Conn.slot
    rw [hslots]

theorem waitEnds_task {c' : Conn} {bs : List UInt8} {old : SlotState} {s : Slot Sqe}
    {ws : List SendWork} {a : Action} (hw : e.WaitEnds) (hlink : LinkOk e.conn.link p)
    (hstep : TaskStep e.watched p c' bs t old s ws) (hold : old ≠ .free)
    (hmove : e.moving t = true → (e.after (e.watched.note a c' bs)).moving t = true) :
    (e.after (e.watched.note a c' bs)).WaitEnds := by
  obtain ⟨rfl, hlt, hst, l', rfl, hls⟩ := hstep
  intro hawaits hex
  have hn : l'.queue.slots.nslots = e.conn.link.queue.slots.nslots := hls.touched.nslots
  have hex' : e.conn.exhausted = true := by
    rw [Conn.exhausted_iff hlink rfl]
    intro u hu
    by_cases heq : u = t
    · subst heq
      intro hfree
      exact hold (hst.symm.trans hfree)
    · have hfree := (Conn.exhausted_iff hls.ok rfl).1 hex u (by rw [hn]; exact hu)
      rwa [hls.touched.other heq] at hfree
  obtain ⟨u, hu, hm⟩ := hw hawaits hex'
  refine ⟨u, (by show u < l'.queue.slots.nslots; rw [hn]; exact hu), ?_⟩
  by_cases heq : u = t
  · subst heq
    exact hmove hm
  · exact moving_after (hls.touched.other heq) hm

theorem waitEnds_of_not_awaits (h : e.conn.awaitsTag = false) : e.WaitEnds := by
  intro hawaits
  rw [h] at hawaits
  cases hawaits

/-! ## One step -/

/-- Every step of the connection but a round of the receive loop lets a wait end that could end. -/
theorem waitEnds_beside {a : Action} (hs : Sound e) (hw : e.WaitEnds) (ha : a ≠ .round)
    (h : e.step (.conn a) = some e') : e'.WaitEnds := by
  obtain ⟨p, hinv⟩ := hs.inv
  obtain ⟨c', bs, hstep, rfl⟩ := step_conn h
  cases a with
  | round => exact absurd rfl ha
  | claim segs =>
    obtain ⟨-, win, sqe, pdu, t, -, -, -, hclaimed⟩ := claim_spec hinv hstep
    apply waitEnds_of_not_awaits
    cases hclaimed <;> rfl
  | recvmsg xs =>
    obtain ⟨-, d, subs, iovs, pdu, segs, k, -, -, -, -, -, -, hreceived⟩ := recvmsg_spec hinv hstep
    apply waitEnds_of_not_awaits
    cases hreceived <;> rfl
  | awaitCommand t =>
    have htask := awaitCommand_spec hinv.link hstep
    refine waitEnds_task hw hinv.link htask (by decide) fun _ => ?_
    obtain ⟨rfl, -, hst, l', rfl, hls⟩ := htask
    have hslot : l'.queue.slots.slots t = { e.conn.slot t with state := .executing } := hls.slot
    -- only an executing request can be parked, and this one was ready
    have hmark : e.parked t = false := by
      by_contra hparked
      have hexec := hs.marked t (by simpa using hparked)
      rw [show (e.conn.slot t).state = .ready from hst] at hexec
      cases hexec
    rw [moving_iff]
    refine .inr (.inl ⟨?_, ?_⟩)
    · show (l'.queue.slots.slots t).state = .executing
      rw [hslot]
    · show (e.parked t && _) = false
      rw [hmark]
      rfl
  | touch t segs =>
    have htask := touch_spec hinv.link hstep
    refine waitEnds_task hw hinv.link htask (by decide) fun hm => ?_
    obtain ⟨rfl, -, hst, l', rfl, hls⟩ := htask
    have hstate : (l'.queue.slots.slots t).state = .executing := by
      rw [hls.slot]
      exact hst
    rw [moving_iff] at hm ⊢
    have hst : (e.conn.slot t).state = .executing := hst
    rw [hst] at hm
    have hmark : e.parked t = false := by
      rcases hm with h | ⟨-, h⟩ | h
      · cases h
      · exact h
      · cases h
    refine .inr (.inl ⟨hstate, ?_⟩)
    show (e.parked t && _) = false
    rw [hmark]
    rfl
  | complete t result rsvd status dataLen =>
    obtain ⟨c, htask, -, -⟩ := complete_spec hinv.link hstep
    refine waitEnds_task hw hinv.link htask (by decide) fun _ => ?_
    obtain ⟨rfl, -, -, l', rfl, hls⟩ := htask
    rw [moving_iff]
    refine .inr (.inr ?_)
    show (l'.queue.slots.slots t).state = .responding
    rw [hls.slot]
  | releaseTag t =>
    obtain ⟨rfl, hlt, -, l', rfl, hls⟩ := releaseTag_spec hinv.link hstep
    intro _ hex
    -- the freelist has the released tag
    have hfree := (Conn.exhausted_iff hls.ok rfl).1 hex t (by rw [hls.touched.nslots]; exact hlt)
    rw [hls.slot] at hfree
    exact absurd rfl hfree
  | _ =>
    have hid := idles_spec hinv rfl hstep
    rcases hid.pc with hpc | hpc
    · exact waitEnds_same hw (by show c'.awaitsTag = _; rw [Conn.awaitsTag, hpc]; rfl) hid.slots
    · apply waitEnds_of_not_awaits
      show c'.awaitsTag = false
      unfold Conn.awaitsTag
      generalize c'.pc = pc at hpc
      cases hpc <;> rfl

theorem leavesTag_round_iff (hs : Sound e) : e.LeavesTag (.conn .round) ↔
    (e.conn.commandDue = true → e.conn.exhausted = true → e.SomeMoving) := by
  have hiff := not_holds_iff (Q := fun _ => True) hs fun _ _ => trivial
  simp only [true_and] at hiff
  exact imp_congr_right fun _ => tally_lt_iff.trans hiff

theorem leavesTag_park_iff {tag : Nat} (hs : Sound e) (hreq : e.isEventRequest tag = true) :
    e.LeavesTag (.park tag) ↔ (e.conn.awaitsTag = true → e.conn.exhausted = true →
      ∃ t < e.nslots, t ≠ tag ∧ e.moving t = true) := by
  have hiff := not_holds_iff (Q := (· ≠ tag)) hs fun t hfree heq => by
    rw [heq, executing_of_request hreq] at hfree
    cases hfree
  rw [LeavesTag, forall_prop_of_true hreq, tally_lt_iff, ← hiff]
  simp only [id, Bool.or_eq_false_iff, beq_eq_false_iff_ne]

theorem waitEnds_round (hs : Sound e) (h : e.step (.conn .round) = some e') :
    e'.WaitEnds ↔ e.LeavesTag (.conn .round) := by
  obtain ⟨p, hinv⟩ := hs.inv
  obtain ⟨c', bs, hstep, rfl⟩ := step_conn h
  rw [leavesTag_round_iff hs]
  constructor
  · intro hw hdue hex
    have haw : c'.awaitsTag = true := by
      obtain ⟨c₁, bs₁, hstep₁, haw⟩ := Conn.round_of_commandDue hdue
      obtain ⟨rfl, -⟩ := Prod.mk.inj (Option.some.inj (hstep.symm.trans hstep₁))
      exact haw
    have hlink : c'.link = e.conn.link := (Conn.round_awaits hinv hstep haw).1
    have hex' : c'.exhausted = true := by
      unfold Conn.exhausted
      rw [hlink]
      exact hex
    obtain ⟨t, ht, hm⟩ := hw haw hex'
    refine ⟨t, (by unfold nslots; rw [← hlink]; exact ht), ?_⟩
    have hslot : (e.after (e.watched.note .round c' bs)).conn.slot t = e.conn.slot t := by
      show c'.link.queue.slots.slots t = e.conn.link.queue.slots.slots t
      rw [hlink]
    rw [moving_iff, hslot] at hm
    rw [moving_iff]
    rcases hm with h | ⟨h, hmark⟩ | h
    · exact .inl h
    · refine .inr (.inl ⟨h, ?_⟩)
      have hmark : (e.parked t && (c'.slot t).state == .executing) = false := hmark
      rw [show (c'.slot t).state = (e.conn.slot t).state from congrArg Slot.state hslot, h] at hmark
      simpa using hmark
    · exact .inr (.inr h)
  · intro hok haw hex
    have hround : c'.link = e.conn.link ∧ _ := Conn.round_awaits hinv hstep haw
    obtain ⟨hlink, hdue⟩ := hround
    have hex' : e.conn.exhausted = true := by
      unfold Conn.exhausted
      rw [← hlink]
      exact hex
    obtain ⟨t, ht, hm⟩ := hok hdue hex'
    refine ⟨t, (by show t < c'.link.queue.slots.nslots; rw [hlink]; exact ht), moving_after ?_ hm⟩
    show c'.link.queue.slots.slots t = e.conn.link.queue.slots.slots t
    rw [hlink]

/-- An event request that parks stops moving; every other tag is as before. -/
theorem waitEnds_park {tag : Nat} (hs : Sound e) (h : e.step (.park tag) = some e') :
    e'.WaitEnds ↔ e.LeavesTag (.park tag) := by
  simp only [Eventful.step] at h
  obtain ⟨hc, rfl⟩ := of_guard h
  rw [leavesTag_park_iff hs hc]
  have hexec : (e.conn.slot tag).state = .executing := executing_of_request hc
  have hmoves : ∀ t, ({ e with parked := Function.update e.parked tag true } : Eventful).moving t = true
      ↔ t ≠ tag ∧ e.moving t = true := by
    intro t
    by_cases heq : t = tag
    · subst heq
      refine iff_of_false (fun hm => ?_) (fun hm => hm.1 rfl)
      rcases moving_iff.1 hm with h | ⟨-, h⟩ | h
      · exact absurd (hexec.symm.trans h) (by decide)
      · have h : Function.update e.parked t true t = false := h
        rw [Function.update_self] at h
        cases h
      · exact absurd (hexec.symm.trans h) (by decide)
    · rw [moving_iff, moving_iff]
      simp only [Function.update_of_ne heq]
      exact (and_iff_right heq).symm
  constructor
  · intro hw haw hex
    obtain ⟨t, ht, hm⟩ := hw haw hex
    obtain ⟨hne, hm⟩ := (hmoves t).1 hm
    exact ⟨t, ht, hne, hm⟩
  · intro hok haw hex
    obtain ⟨t, ht, hne, hm⟩ := hok haw hex
    exact ⟨t, ht, (hmoves t).2 ⟨hne, hm⟩⟩

theorem waitEnds_step {a : TagAction} (hs : Sound e) (hw : e.WaitEnds) (h : e.step a = some e') :
    e'.WaitEnds ↔ e.LeavesTag a := by
  cases a with
  | park tag => exact waitEnds_park hs h
  | conn a =>
    by_cases ha : a = .round
    · subst ha
      exact waitEnds_round hs h
    · refine iff_of_true (waitEnds_beside hs hw ha h) ?_
      cases a <;> first | exact absurd rfl ha | trivial

theorem leavesTag_of_none {a : TagAction} (h : e.step a = none) : e.LeavesTag a := by
  cases a with
  | park tag =>
    intro hreq
    rw [Eventful.step, if_pos hreq] at h
    cases h
  | conn a =>
    cases a with
    | round =>
      intro hdue
      have hnone : e.conn.step .round = none :=
        Option.map_eq_none_iff.1 (Option.map_eq_none_iff.1 h)
      obtain ⟨c', bs, hstep, -⟩ := Conn.round_of_commandDue hdue
      cases hnone.symm.trans hstep
    | _ => trivial

theorem start_sound {cfg : ConnCfg} {c : Conn} (hinit : Conn.init cfg = .ok c) :
    Sound (start c) ∧ (start c).WaitEnds := by
  refine ⟨⟨⟨_, Inv.start hinit⟩, (fun _ h => nomatch h)⟩, waitEnds_of_not_awaits ?_⟩
  obtain ⟨l, -, hok, -⟩ := Conn.init_ok cfg
  rw [hok] at hinit
  obtain rfl := Except.ok.inj hinit
  rfl

end Eventful

namespace Host

/-- On a queue of two entries the Connect command is answered, then three capsules arrive together: the
first two get the two tags, the third finds none free. -/
def threeCapsules (first second third : List UInt8) : List TagAction :=
  [.conn (.awaitCommand 0), .conn (.complete 0 0 0 0 0), .conn .takeWork, .conn (.releaseTag 0),
    .conn (.recv (first ++ second ++ third)), .conn .round, .conn (.claim [List.replicate 8 0]),
    .conn .round, .conn (.claim [List.replicate 8 0]), .conn .round]

/-- A Write of eight bytes that the host keeps until it is asked for them. -/
def solicitedWrite (cid : Nat) : List UInt8 := capsuleCmd 0 (sqe IoOpcode.write cid 8 0x5a) [] []

def flush (cid : Nat) : List UInt8 := capsuleCmd 0 (sqe IoOpcode.flush cid 0 0) [] []

end Host

/-- The run of a connection set up with `cfg` can be taken, by steps that meet `Ok`, to a state that
shows `f`. -/
def Eventful.shows (cfg : ConnCfg) (Ok : Eventful → TagAction → Prop) [∀ e a, Decidable (Ok e a)]
    (as : List TagAction) (f : Eventful → Bool) : Bool :=
  match Conn.init cfg with
  | .ok c => decide (StepsOk Eventful.step Ok (Eventful.start c) as) &&
      (runFrom Eventful.step (Eventful.start c) as).any f
  | .error _ => false

theorem Eventful.shows_spec {cfg : ConnCfg} {Ok : Eventful → TagAction → Prop}
    [∀ e a, Decidable (Ok e a)] {as : List TagAction} {f : Eventful → Bool}
    (h : Eventful.shows cfg Ok as f = true) :
    ∃ c e, Conn.init cfg = .ok c ∧ StepsOk Eventful.step Ok (Eventful.start c) as ∧
      runFrom Eventful.step (Eventful.start c) as = some e ∧ f e = true := by
  unfold Eventful.shows at h
  split at h
  · rename_i c hc
    rw [Bool.and_eq_true, decide_eq_true_eq, Option.any_eq_true] at h
    obtain ⟨hok, e, hrun, hf⟩ := h
    exact ⟨c, e, hc, hok, hrun, hf⟩
  · cases h

end Ioutgt.Tcp
