import Ioutgt.Tcp.Proof.RecvFrame

/-!
# Steps beside the receive loop

The slot tasks, the send loop and the kernel act between any two steps of the receive loop. Each
of their steps keeps the invariant.

* `Inv.beside`: a step that changes the queue or the ring, and leaves the loop where it stands.
* `TaskStep`: what a slot task or the send loop did, with `awaitCommand_spec`, `touch_spec`,
  `complete_spec`, `releaseTag_spec`.
* `Inv.task`: the slot of a tag whose command is not under way changes.
* `Inv.awaitCommand`, `Inv.touch`, `Inv.complete`, `Inv.takeWork`, `Inv.releaseTag`,
  `Inv.kernelFill`: one lemma for each action.
-/

namespace Ioutgt.Tcp

open Lib Ioutgt.Core Ioutgt.Nvme Ioutgt.Uring

variable {w : Watched} {p : Pos} {a : Action} {l' l : Link} {t : Nat} {s : Slot Sqe}

def Conn.relink (c : Conn) (l : Link) : Conn := { c with link := l }

theorem Inv.beside (h : Inv w p) (hl : LinkOk l' p) (hplace : w.conn.link.SamePlace l')
    (hn : l'.queue.slots.nslots = w.conn.link.queue.slots.nslots)
    (hslots : ∀ t < l'.queue.slots.nslots, SlotInv (w.note a (w.conn.relink l') []) t)
    (hactive : ∀ t, w.conn.active = some t →
      l'.queue.slots.slots t = w.conn.slot t ∧
        ∀ b, borrows b (w.conn.slot t) = true → w.conn.link.Keeps l' b)
    (hunread : w.conn.stopped = false →
      (w.note a (w.conn.relink l') []).unread p = w.unread p ++ a.received) :
    Inv (w.note a (w.conn.relink l') []) p := by
  exact h.idle a (w.conn.relink l') rfl rfl rfl hl hplace.sameSize hn hslots hactive id id
    (fun ho => ⟨ho, hunread ho⟩) fun hb => h.pc.frame hb hplace rfl

theorem Link.Steady.unread (h : l.Steady l') (p : Pos) :
    l'.reader.unread p = l.reader.unread p := by
  obtain ⟨q, r⟩ := l
  obtain ⟨q', r'⟩ := l'
  have hs : Reader.Rel _ r r' := h
  cases hs with
  | classic => rfl
  | ring hs => exact hs.1.content p

theorem Pc.unread_congr {pc : Pc} (h : ∀ win, l'.bytesOf win = l.bytesOf win) :
    pc.unread l' = pc.unread l := by
  cases pc <;> simp [Pc.unread, h]

theorem Watched.unread_steady {w' : Watched} (hpc : w'.conn.pc = w.conn.pc)
    (hs : w.conn.link.Steady w'.conn.link) : w'.unread p = w.unread p := by
  rw [Watched.unread, hpc, Pc.unread_congr hs.bytesOf, hs.unread p, Watched.unread]

theorem Inv.task {ws : List SendWork} (h : Inv w p) (hstep : LinkStep w.conn.link l' p t s ws)
    (hact : w.conn.active ≠ some t) (hrecv : a.received = [])
    (hquiet : ∀ u, u ≠ t → completionsFor u ws = [])
    (ht : SlotInv (w.note a (w.conn.relink l') []) t) : Inv (w.note a (w.conn.relink l') []) p := by
  have hne : ∀ u, w.conn.active = some u → u ≠ t := by
    rintro u hu rfl
    exact hact hu
  refine h.beside hstep.ok hstep.steady.samePlace hstep.touched.nslots ?_ ?_ fun _ => ?_
  · exact h.slots_touched (w.conn.relink l') rfl hstep hquiet (fun _ _ => Iff.rfl) ht
  · intro u hu
    exact ⟨hstep.touched.other (hne u hu), fun _ => hstep.keeps (h.active u hu) (hne u hu)⟩
  · rw [hrecv, List.append_nil]
    exact Watched.unread_steady rfl hstep.steady

theorem Inv.not_active (h : Inv w p) (hs : (w.conn.slot t).state ≠ .receiving) :
    w.conn.active ≠ some t :=
  fun hc => hs ((h.slots t (h.active t hc)).active hc)

theorem Inv.note_slot {ws : List SendWork} (h : Inv w p) (hstep : LinkStep w.conn.link l' p t s ws) :
    (w.note a (w.conn.relink l') []).conn.slot t = s ∧
      (w.note a (w.conn.relink l') []).got t = (if s.state = .free then [] else w.got t) ∧
      (w.note a (w.conn.relink l') []).answers t
        = if s.state = .free then [] else w.answers t ++ completionsFor t ws := by
  obtain ⟨hslot, hans⟩ := w.note_touched a (w.conn.relink l') [] hstep
  obtain ⟨-, -, hgot⟩ := h.note_idle a (w.conn.relink l') fun hb => hb
  exact ⟨hslot, by rw [hgot, hslot], hans⟩

/-! ## Slot tasks and the send loop -/

theorem Conn.withLink_ok (c : Conn) {x : Checked RecvEnd Link} (h : x = .ok l) :
    c.withLink x = c.relink l := by
  rw [h]
  rfl

section
variable {t : Nat} {c' : Conn} {bs : List UInt8}

/-- The slot of a command that has left the receive path and is not answered yet. -/
theorem Inv.slot_executing (h : Inv w p) (hstep : LinkStep w.conn.link l' p t s [])
    (ht : t < w.conn.link.queue.slots.nslots) (hold : (w.conn.slot t).state ≠ .responding)
    (hact : w.conn.active ≠ some t) (hs : s.state = .executing) :
    SlotInv (w.note a (w.conn.relink l') []) t := by
  obtain ⟨hslot, hgot, hans⟩ := h.note_slot (a := a) hstep
  rw [hs, if_neg (by decide)] at hgot hans
  refine .of_note hslot hgot (hans.trans (List.append_nil _)) (fun _ => .busy (.inl hs))
    (fun hc => absurd hc hact) ?_
  exact (h.slots t ht).answers.open_ hold (by rw [hs]; decide)

/-- What a slot task or the send loop did: the slot of `t`, which was in state `old`, became `s`, and
`ws` were queued. -/
structure TaskStep (w : Watched) (p : Pos) (c' : Conn) (bs : List UInt8) (t : Nat) (old : SlotState)
    (s : Slot Sqe) (ws : List SendWork) : Prop where
  quiet : bs = []
  lt : t < w.conn.link.queue.slots.nslots
  state : (w.conn.slot t).state = old
  link : ∃ l', c' = w.conn.relink l' ∧ LinkStep w.conn.link l' p t s ws

theorem awaitCommand_spec (h : LinkOk w.conn.link p)
    (hs : w.conn.step (.awaitCommand t) = some (c', bs)) :
    TaskStep w p c' bs t .ready { w.conn.slot t with state := .executing } [] := by
  obtain ⟨⟨hst, hlt⟩, hs⟩ := of_guard hs
  have ht : t < w.conn.link.queue.slots.nslots := by rw [h.nslots]; exact hlt
  let s : Slot Sqe := { w.conn.link.queue.slots.slots t with state := .executing }
  let q : NvmeTcpQueue := { w.conn.link.queue with
    slots := { w.conn.link.queue.slots with
      executing := w.conn.link.queue.slots.executing + 1 }.put t s }
  have htouch : Touched w.conn.link.queue q t s [] := by
    refine ⟨rfl, h.sqhd, rfl, rfl, ?_, (List.append_nil _).symm⟩
    exact h.slots.put ht (by rw [hst]; decide) (by simp [s]) (by simp [Slot.isExecuting, hst, s])
  rw [SlotArray.awaitCommand_ok ht hst, Checked.bind_ok] at hs
  obtain ⟨rfl, rfl⟩ := Prod.mk.inj hs
  exact ⟨rfl, ht, hst, _, rfl, htouch.linkStep h (.of_data rfl)⟩

theorem touch_spec {segs : List (List UInt8)} (h : LinkOk w.conn.link p)
    (hs : w.conn.step (.touch t segs) = some (c', bs)) :
    TaskStep w p c' bs t .executing { w.conn.slot t with data := .leased segs } [] := by
  obtain ⟨⟨hst, hlt⟩, hs⟩ := of_guard hs
  have ht : t < w.conn.link.queue.slots.nslots := by rw [h.nslots]; exact hlt
  obtain ⟨l', hset, hstep⟩ := h.leases ht segs
  rw [Conn.withLink_ok _ hset] at hs
  obtain ⟨rfl, rfl⟩ := Prod.mk.inj hs
  exact ⟨rfl, ht, hst, l', rfl, hstep⟩

theorem finish_touched {q : NvmeTcpQueue} (hw : q.slots.Wf) (hsq : q.sqhd < q.cfg.sqsize)
    (ht : t < q.slots.nslots) (hst : (q.slots.slots t).state = .executing)
    (result rsvd status dataLen : Nat) :
    ∃ q' c, (q.finish t result rsvd status dataLen : Checked RecvEnd _) = .ok q' ∧
      Touched q q' t { q.slots.slots t with state := .responding } [.response c] ∧
      c.tag = t ∧ c.cqe.cid = (q.slots.slots t).cmd.cid := by
  obtain ⟨n, hadv, hn⟩ := NvmeTcpQueue.advanceSqhd_ok (ε := RecvEnd) hsq
  rw [NvmeTcpQueue.finish, SlotArray.slot_ok ht, Checked.bind_ok, hadv, Checked.bind_ok]
  dsimp only
  rw [NvmeTcpQueue.complete, SlotArray.Wf.beginRespond_ok hw ht hst, Checked.bind_ok]
  refine ⟨_, _, rfl, ⟨rfl, hn, rfl, rfl, ?_, rfl⟩, rfl, rfl⟩
  have hpos := hw.executing_pos ht hst
  refine hw.put ht (by rw [hst]; decide) (by simp) ?_
  have hone : (q.slots.slots t).isExecuting = true := by simp [Slot.isExecuting, hst]
  rw [hone, if_pos rfl, if_neg (by simp [Slot.isExecuting])]
  omega

theorem complete_spec {result rsvd status dataLen : Nat} (h : LinkOk w.conn.link p)
    (hs : w.conn.step (.complete t result rsvd status dataLen) = some (c', bs)) :
    ∃ c, TaskStep w p c' bs t .executing { w.conn.slot t with state := .responding }
        [.response c] ∧ c.tag = t ∧ c.cqe.cid = (w.conn.slot t).cmd.cid := by
  obtain ⟨⟨hst, hlt⟩, hs⟩ := of_guard hs
  have ht : t < w.conn.link.queue.slots.nslots := by rw [h.nslots]; exact hlt
  obtain ⟨q', c, hfin, htouch, htag, hcid⟩ :=
    finish_touched h.slots h.sqhd ht hst result rsvd status dataLen
  rw [hfin, Checked.bind_ok] at hs
  obtain ⟨rfl, rfl⟩ := Prod.mk.inj hs
  exact ⟨c, ⟨rfl, ht, hst, _, rfl, htouch.linkStep h (.of_data rfl)⟩, htag, hcid⟩

theorem releaseTag_spec (h : LinkOk w.conn.link p)
    (hs : w.conn.step (.releaseTag t) = some (c', bs)) :
    TaskStep w p c' bs t .responding { w.conn.slot t with data := .empty, state := .free } [] := by
  obtain ⟨⟨hst, hlt⟩, hs⟩ := of_guard hs
  have ht : t < w.conn.link.queue.slots.nslots := by rw [h.nslots]; exact hlt
  obtain ⟨l', hrel, hok, hq, hsteady⟩ := h.releaseTag RecvEnd ht hst
  rw [Conn.withLink_ok _ hrel] at hs
  obtain ⟨rfl, rfl⟩ := Prod.mk.inj hs
  refine ⟨rfl, ht, hst, l', rfl, hok, ?_, hsteady⟩
  rw [hq]
  exact ⟨rfl, h.sqhd, rfl, rfl, h.slots.released ht hst, by simp⟩

theorem Inv.awaitCommand (h : Inv w p) (hs : w.conn.step (.awaitCommand t) = some (c', bs)) :
    Inv (w.note (.awaitCommand t) c' bs) p := by
  obtain ⟨rfl, ht, hst, l', rfl, hstep⟩ := awaitCommand_spec h.link hs
  have hact : w.conn.active ≠ some t := h.not_active (by rw [hst]; decide)
  exact h.task hstep hact rfl (fun _ _ => rfl)
    (h.slot_executing hstep ht (by rw [hst]; decide) hact rfl)

theorem Inv.touch {segs : List (List UInt8)} (h : Inv w p)
    (hs : w.conn.step (.touch t segs) = some (c', bs)) : Inv (w.note (.touch t segs) c' bs) p := by
  obtain ⟨rfl, ht, hst, l', rfl, hstep⟩ := touch_spec h.link hs
  have hact : w.conn.active ≠ some t := h.not_active (by rw [hst]; decide)
  exact h.task hstep hact rfl (fun _ _ => rfl)
    (h.slot_executing hstep ht (by rw [hst]; decide) hact hst)

theorem Inv.complete {result rsvd status dataLen : Nat} (h : Inv w p)
    (hs : w.conn.step (.complete t result rsvd status dataLen) = some (c', bs)) :
    Inv (w.note (.complete t result rsvd status dataLen) c' bs) p := by
  obtain ⟨c, ⟨rfl, ht, hst, l', rfl, hstep⟩, htag, hcid⟩ := complete_spec h.link hs
  have hact : w.conn.active ≠ some t := h.not_active (by rw [hst]; decide)
  have hopen : (w.conn.slot t).state ≠ .responding := by rw [hst]; decide
  refine h.task hstep hact rfl ?_ ?_
  · intro u hu
    simp [completionsFor, htag, Ne.symm hu]
  · obtain ⟨hslot, hgot, hans⟩ := h.note_slot (a := .complete t result rsvd status dataLen) hstep
    rw [if_neg (by simp)] at hgot hans
    have hold := (h.slots t ht).answers
    rw [hold.none hopen] at hans
    refine .of_note hslot hgot hans (fun _ => .busy (.inr rfl)) (fun hc => absurd hc hact) ?_
    refine ⟨fun hf => absurd rfl hf, fun _ => ⟨c, ?_, htag, hcid⟩, fun hd q hq hm => ?_⟩
    · simp [completionsFor, htag]
    · -- a slot task never gets a command whose digest was wrong
      exact absurd (hold.mismatch hd q hq hm).1 hopen

theorem Inv.releaseTag (h : Inv w p) (hs : w.conn.step (.releaseTag t) = some (c', bs)) :
    Inv (w.note (.releaseTag t) c' bs) p := by
  obtain ⟨rfl, ht, hst, l', rfl, hstep⟩ := releaseTag_spec h.link hs
  have hact : w.conn.active ≠ some t := h.not_active (by rw [hst]; decide)
  refine h.task hstep hact rfl (fun _ _ => rfl) ?_
  obtain ⟨hslot, hgot, hans⟩ := h.note_slot (a := .releaseTag t) hstep
  rw [if_pos rfl] at hgot hans
  refine .of_note hslot hgot hans (fun _ => ?_) (fun hc => absurd hc hact) (.fresh (by simp))
  exact ⟨fun _ => ⟨rfl, rfl⟩, fun hf => (by cases hf), fun hf => (by cases hf)⟩

theorem Inv.takeWork (h : Inv w p) (hs : w.conn.step .takeWork = some (c', bs)) :
    Inv (w.note .takeWork c' bs) p := by
  obtain ⟨-, hs⟩ := of_guard hs
  obtain ⟨rfl, rfl⟩ := Prod.mk.inj hs
  let q : NvmeTcpQueue := { w.conn.link.queue with taken := w.conn.link.queue.taken + 1 }
  show Inv (w.note _ (w.conn.relink { w.conn.link with queue := q }) []) p
  refine h.beside (h.link.of_queue rfl h.link.sqhd h.link.slots rfl fun _ _ _ => rfl)
    (Link.Steady.of_reader rfl).samePlace rfl ?_ (fun _ _ => ⟨rfl, fun b _ => .of_reader rfl b⟩)
    fun _ => ?_
  · exact h.slots_same (w.conn.relink { w.conn.link with queue := q }) rfl rfl rfl rfl
      fun _ _ b _ => .of_reader rfl b
  · rw [show (Action.takeWork).received = [] from rfl, List.append_nil]
    exact Watched.unread_steady rfl (.of_reader rfl)

/-! ## The kernel -/

theorem WindowOk.bytesOf_keep {l' : Link} {win : Window} (h : WindowOk l win) (hl : LinkOk l p)
    (hk : ∀ b, l.Keeps l' b) : l'.bytesOf win = l.bytesOf win := by
  cases win with
  | scratch bs => rfl
  | ring b o n =>
    have hring := hl.ring
    obtain ⟨q, r⟩ := l
    obtain ⟨q', r'⟩ := l'
    have hb : Reader.Rel _ r r' := hk b
    cases hb with
    | classic => exact h.elim
    | @ring m m' hb =>
      obtain ⟨c, hc, rfl, hle, hsum⟩ := h
      exact (hb _ ((hring m rfl).1.cur_settled hc)).2 o n (by omega)

theorem Inv.kernelFill {xs : List UInt8} (h : Inv w p)
    (hs : w.conn.step (.kernelFill xs) = some (c', bs)) :
    Inv (w.note (.kernelFill xs) c' bs) p := by
  unfold Conn.step at hs
  dsimp only at hs
  split at hs
  swap
  · cases hs
  rename_i m hr
  obtain ⟨r, hfill, hpair⟩ := Option.map_eq_some_iff.1 hs
  obtain ⟨rfl, rfl⟩ := Prod.mk.inj hpair
  obtain ⟨hok, -⟩ := h.link.ring m hr
  obtain ⟨hok', hsize, hcontent, hpend', hkeepAt⟩ := hok.kernelFill hfill
  let l' : Link := { w.conn.link with reader := .ring { m with ring := r } }
  have hkeep : ∀ b, w.conn.link.Keeps l' b := by
    intro b
    rw [Link.Keeps, hr]
    exact .ring (hkeepAt b)
  show Inv (w.note _ (w.conn.relink l') []) p
  refine h.beside (h.link.of_ring hr hok' hpend') ?_ rfl ?_ (fun _ _ => ⟨rfl, fun b _ => hkeep b⟩)
    fun _ => ?_
  · rw [Link.SamePlace, hr]
    exact .ring ⟨rfl, hsize⟩
  · exact h.slots_same (w.conn.relink l') rfl rfl rfl rfl fun _ _ b _ => hkeep b
  · have hwin : w.conn.pc.unread l' = w.conn.pc.unread w.conn.link := by
      have hpc := h.pc
      unfold PcOk at hpc
      cases hc : w.conn.pc with
      | inner win =>
        simp only [hc] at hpc
        exact hpc.1.bytesOf_keep h.link hkeep
      | awaitTag win sqe n ddgst =>
        simp only [hc] at hpc
        exact hpc.1.bytesOf_keep h.link hkeep
      | fill => rfl
      | direct d subs iovs => rfl
      | ended e => rfl
      | panicked q => rfl
    show w.conn.pc.unread l' ++ r.content p r.cqes = w.unread p ++ xs
    rw [hwin, hcontent, Watched.unread, hr, Reader.unread, List.append_assoc]

end

end Ioutgt.Tcp
