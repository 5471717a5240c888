import Ioutgt.Tcp.Proof.RecvPhase

/-!
# What a step leaves alone

Frame lemmas for the receive machine's invariant: slots a step does not touch, the loop's place
while something else runs, and the account of the stream.

* `SlotInv.same`: a slot that is as it was.
* `PcOk.frame`: the receive loop stands still.
* `Inv.note_stream`: consumed and unread bytes still make up the stream.
* `Inv.idle`: a step that consumes nothing and stays in its phase.
-/

namespace Ioutgt.Tcp

open Ioutgt.Core Ioutgt.Nvme Ioutgt.Uring

variable {w w' : Watched} {p p' : Pos} {a : Action} {c' : Conn} {bs : List UInt8} {t : Nat}
  {s : Slot Sqe} {ps : List Pdu} {l l' : Link}

theorem Conn.between_active {c : Conn} (h : c.active = some t) : c.between = false := by
  unfold Conn.active at h
  unfold Conn.between
  cases hp : c.phase <;> simp_all

theorem Conn.active_of_phase {c c' : Conn} (h : c'.phase = c.phase) : c'.active = c.active := by
  unfold Conn.active
  rw [h]

/-! ## Slots -/

theorem SlotInv.of_note {as : List Completion} (hslot : c'.slot t = s)
    (hgot : (w.note a c' bs).got t = ps) (hans : (w.note a c' bs).answers t = as)
    (hidle : c'.active ≠ some t → SlotOk c'.link t ps s)
    (hactive : c'.active = some t → s.state = .receiving) (hok : AnswerOk c'.dataDigest t ps as s) :
    SlotInv (w.note a c' bs) t := by
  subst hslot hgot hans
  exact ⟨hidle, hactive, hok⟩

theorem Watched.note_touched {ws : List SendWork} (w : Watched) (a : Action) (c' : Conn)
    (bs : List UInt8) (hstep : LinkStep w.conn.link c'.link p' t s ws) :
    c'.slot t = s ∧ (w.note a c' bs).answers t =
      if s.state = .free then [] else w.answers t ++ completionsFor t ws := by
  have hslot : c'.slot t = s := hstep.slot
  refine ⟨hslot, ?_⟩
  show (if (c'.slot t).state = .free then [] else w.answers t ++
    completionsFor t (c'.link.queue.send.drop w.conn.link.queue.send.length)) = _
  rw [hslot, hstep.touched.send, List.drop_left]

theorem SlotInv.same (h : SlotInv w t) (hslot : c'.slot t = w.conn.slot t)
    (hdd : c'.dataDigest = w.conn.dataDigest) (hact : c'.active = some t ↔ w.conn.active = some t)
    (hkeep : ∀ b, borrows b (w.conn.slot t) = true → w.conn.link.Keeps c'.link b)
    (hquiet : completionsFor t (c'.link.queue.send.drop w.conn.link.queue.send.length) = []) :
    SlotInv (w.note a c' bs) t := by
  have hgot : (w.note a c' bs).got t = w.got t := by
    unfold Watched.note
    dsimp only
    rw [hslot]
    split
    · rename_i hfree
      have hidle : w.conn.active ≠ some t := fun hc => by
        rw [h.active hc] at hfree
        cases hfree
      exact ((h.idle hidle).free hfree).1.symm
    · split
      · rename_i hfin
        have := Conn.between_active (hact.2 hfin.2)
        rw [this] at hfin
        simp at hfin
      · rfl
  have hans : (w.note a c' bs).answers t = w.answers t := by
    unfold Watched.note
    dsimp only
    rw [hslot, hquiet, List.append_nil]
    split
    · rename_i hfree
      exact (h.answers.none (by rw [hfree]; decide)).symm
    · rfl
  exact .of_note hslot hgot hans (fun hn => (h.idle fun hc => hn (hact.2 hc)).keep hkeep)
    (fun hc => h.active (hact.1 hc)) (hdd ▸ h.answers)

theorem Inv.slots_touched {ws : List SendWork} (h : Inv w p) (c' : Conn)
    (hdd : c'.dataDigest = w.conn.dataDigest) (hstep : LinkStep w.conn.link c'.link p' t s ws)
    (hquiet : ∀ u, u ≠ t → completionsFor u ws = [])
    (hact : ∀ u, u ≠ t → (c'.active = some u ↔ w.conn.active = some u))
    (ht : SlotInv (w.note a c' bs) t) :
    ∀ u < c'.link.queue.slots.nslots, SlotInv (w.note a c' bs) u := by
  intro u hu
  rw [hstep.touched.nslots] at hu
  by_cases hut : u = t
  · exact hut ▸ ht
  · refine (h.slots u hu).same (hstep.touched.other hut) hdd (hact u hut) (fun _ => hstep.keeps hu hut) ?_
    rw [hstep.touched.send, List.drop_left]
    exact hquiet u hut

theorem Inv.slots_same (h : Inv w p) (c' : Conn) (hdd : c'.dataDigest = w.conn.dataDigest)
    (hslots : c'.link.queue.slots = w.conn.link.queue.slots)
    (hsend : c'.link.queue.send = w.conn.link.queue.send) (hact : c'.active = w.conn.active)
    (hkeep : ∀ t < w.conn.link.queue.slots.nslots, ∀ b, borrows b (w.conn.slot t) = true →
      w.conn.link.Keeps c'.link b) :
    ∀ t < c'.link.queue.slots.nslots, SlotInv (w.note a c' bs) t := by
  intro t ht
  rw [hslots] at ht
  refine (h.slots t ht).same ?_ hdd (by rw [hact]) (hkeep t ht) ?_
  · unfold Conn.slot
    rw [hslots]
  · rw [hsend, List.drop_length]
    rfl

/-! ## The receive loop's place -/

def Link.SameSize (l l' : Link) : Prop :=
  Reader.Rel (fun m m' => m'.ring.bufSize = m.ring.bufSize) l.reader l'.reader

theorem Link.SameSize.refl (l : Link) : l.SameSize l := .of_eq (fun _ => rfl) rfl

theorem Link.SamePlace.sameSize (h : l.SamePlace l') : l.SameSize l' :=
  Reader.Rel.mono (fun h => h.2) h

theorem DataOk.keep {dd : Bool} {cur : Pdu} {d : DataPhase} {k : Nat} {pdu : DecodedPdu}
    (h : DataOk dd l ps s cur d k pdu) (hs : l.SameSize l')
    (hk : ∀ b, borrows b s = true → l.Keeps l' b) :
    DataOk dd l' ps s cur d k pdu where
  fill := { h.fill with
    arrived := h.fill.arrived.keep fun b off len hd => hk b (borrows_eq_true.2 ⟨off, len, hd⟩) }
  count := h.count
  pos := h.pos
  noDigest := h.noDigest
  ddgst := h.ddgst
  crc := h.crc
  retained := by
    intro hr
    obtain ⟨b, off, n, hd, hle⟩ := h.retained hr
    refine ⟨b, off, n, hd, fun m' hr' => ?_⟩
    obtain ⟨m, hm, hsize⟩ := Reader.Rel.of_ring hs hr'
    rw [hsize]
    exact hle m hm
  copied := h.copied

theorem DdgstOk.keep {dd : Bool} {cur : Pdu} {g : DdgstPhase} {base : Nat} {pdu : DecodedPdu}
    (h : DdgstOk dd l ps s cur g base pdu) (hk : ∀ b, borrows b s = true → l.Keeps l' b) :
    DdgstOk dd l' ps s cur g base pdu :=
  { h with fill := { h.fill with
      arrived := h.fill.arrived.keep fun b off len hd => hk b (borrows_eq_true.2 ⟨off, len, hd⟩) } }

/-- Something else ran, or the loop went on without consuming anything. -/
structure Beside (w w' : Watched) : Prop where
  digest : w'.conn.dataDigest = w.conn.dataDigest
  phase : w'.conn.phase = w.conn.phase
  decoder : w'.conn.decoder = w.conn.decoder
  size : w.conn.link.SameSize w'.conn.link
  cur : w'.cur = w.cur
  active : ∀ t, w.conn.active = some t → w'.got t = w.got t ∧ w'.conn.slot t = w.conn.slot t ∧
    ∀ b, borrows b (w.conn.slot t) = true → w.conn.link.Keeps w'.conn.link b

theorem PhaseOk.beside {here here' : Nat → Nat → Prop} (h : PhaseOk w here) (hb : Beside w w')
    (himp : ∀ b o, here b o → here' b o) : PhaseOk w' here' := by
  unfold PhaseOk at *
  rw [hb.phase]
  cases hp : w.conn.phase with
  | header =>
    simp only [hp] at h ⊢
    rw [hb.cur, hb.decoder]
    exact h
  | data d =>
    simp only [hp] at h ⊢
    obtain ⟨hgot, hslot, hkeep⟩ := hb.active d.tag (by rw [Conn.active, hp])
    obtain ⟨pdu, hok, hh⟩ := h
    rw [hb.cur, hb.digest, hgot, hslot]
    exact ⟨pdu, hok.keep hb.size hkeep, fun hr b off len hd => himp _ _ (hh hr b off len hd)⟩
  | ddgst g =>
    simp only [hp] at h ⊢
    obtain ⟨hgot, hslot, hkeep⟩ := hb.active g.tag (by rw [Conn.active, hp])
    obtain ⟨base, pdu, hok⟩ := h
    rw [hb.cur, hb.digest, hgot, hslot]
    exact ⟨base, pdu, hok.keep hkeep⟩

theorem PcOk.frame (h : PcOk w p) (hb : Beside w w') (hplace : w.conn.link.SamePlace w'.conn.link)
    (hpc : w'.conn.pc = w.conn.pc) : PcOk w' p := by
  unfold PcOk at *
  rw [hpc]
  cases hc : w.conn.pc with
  | fill =>
    simp only [hc] at h ⊢
    refine ⟨fun m' hr' => ?_, h.2.beside hb fun _ _ hh => hh⟩
    obtain ⟨m, hr, hcur, -⟩ := Reader.Rel.of_ring hplace hr'
    rw [hcur]
    exact h.1 m hr
  | inner win =>
    simp only [hc] at h ⊢
    exact ⟨h.1.samePlace hplace, h.2.beside hb fun _ _ hh => hh⟩
  | awaitTag win sqe n ddgst =>
    simp only [hc] at h ⊢
    rw [hb.phase, hb.cur, hb.digest]
    exact ⟨h.1.samePlace hplace, h.2⟩
  | direct d subs iovs =>
    simp only [hc] at h ⊢
    obtain ⟨hr, hp, pdu, segs, k, last, len, hok, hrest⟩ := h
    obtain ⟨hgot, hslot, hkeep⟩ := hb.active d.tag (by rw [Conn.active, hp])
    rw [hb.phase, hb.cur, hb.digest, hgot, hslot]
    exact ⟨Reader.Rel.of_classic hplace hr, hp, pdu, segs, k, last, len, hok.keep hb.size hkeep, hrest⟩
  | ended e => trivial
  | panicked q => simp only [hc] at h

/-! ## The PDU under way -/

theorem Inv.cur_empty (h : Inv w p) (hb : w.conn.between = true) : w.cur = .empty := by
  have hpc := h.pc
  unfold Conn.between at hb
  unfold PcOk at hpc
  have hheld : w.conn.decoder.have_ = 0 → w.conn.decoder.held = [] := by
    intro h0
    exact List.length_eq_zero_iff.1 (by rw [PduDecoder.held_length h.decoder, h0])
  have key : w.conn.phase = .header → w.conn.decoder.have_ = 0 →
      ∀ here, PhaseOk w here → w.cur = .empty := by
    intro hp h0 here hok
    unfold PhaseOk at hok
    simp only [hp] at hok
    rw [hok, hheld h0]
    rfl
  split at hb
  · rename_i hp hc
    simp only [hc] at hpc
    exact key hp (by simpa using hb) _ hpc.2
  · rename_i win hp hc
    simp only [hc] at hpc
    exact key hp (by simpa using hb) _ hpc.2
  · cases hb

theorem Conn.taking_nil (c : Conn) (cur : Pdu) : c.taking cur [] = cur := by
  unfold Conn.taking
  cases c.phase <;> simp

theorem Inv.note_idle (h : Inv w p) (a : Action) (c' : Conn)
    (hb : c'.between = true → w.conn.between = true) :
    (w.note a c' []).cur = w.cur ∧ (w.note a c' []).done = w.done ∧
      ∀ t, (w.note a c' []).got t = if (c'.slot t).state = .free then [] else w.got t := by
  have hun : c'.between = false ∨ w.conn.taking w.cur [] = .empty := by
    cases hc : c'.between with
    | false => exact .inl rfl
    | true =>
      rw [Conn.taking_nil]
      exact .inr (h.cur_empty (hb hc))
  have := w.note_unfinished a c' [] hun
  rwa [Conn.taking_nil] at this

theorem Watched.Parts.taking (h : w.Parts) (bs : List UInt8) (hp : w'.conn.phase = w.conn.phase)
    (hc : w'.cur = w.conn.taking w.cur bs) : w'.Parts := by
  refine ⟨fun hh => ?_, fun d hd => ?_⟩
  · rw [hp] at hh
    rw [hc, Conn.taking, hh]
    exact h.header hh
  · rw [hp] at hd
    rw [hc, Conn.taking, hd]
    exact h.data d hd

theorem PcOk.parts (h : PcOk w p) (ho : w.conn.stopped = false) : w.Parts := by
  have key : ∀ here, PhaseOk w here → w.Parts := by
    intro here hok
    unfold PhaseOk at hok
    refine ⟨fun hp => ?_, fun d hp => ?_⟩
    · simp only [hp] at hok
      rw [hok]
      exact ⟨rfl, rfl⟩
    · simp only [hp] at hok
      obtain ⟨pdu, hd, -⟩ := hok
      exact hd.noDigest
  unfold PcOk at h
  unfold Conn.stopped at ho
  cases hc : w.conn.pc with
  | fill => simp only [hc] at h; exact key _ h.2
  | inner win => simp only [hc] at h; exact key _ h.2
  | awaitTag win sqe n ddgst =>
    simp only [hc] at h
    obtain ⟨-, hp, pdu, -, -, -, -, hpay, hdig⟩ := h
    refine ⟨fun _ => ⟨hpay, hdig⟩, fun d hd => ?_⟩
    rw [hp] at hd
    cases hd
  | direct d subs iovs =>
    simp only [hc] at h
    obtain ⟨-, hp, pdu, segs, k, last, len, hok, -⟩ := h
    refine ⟨fun hh => ?_, fun _ _ => hok.noDigest⟩
    rw [hp] at hh
    cases hh
  | ended e => simp [hc] at ho
  | panicked q => simp [hc] at ho

/-! ## The stream -/

theorem Inv.note_stream (h : Inv w p) (a : Action) (c' : Conn) (bs : List UInt8) (p' : Pos)
    (hlive : c'.stopped = false → w.conn.stopped = false ∧
      bs ++ (w.note a c' bs).unread p' = w.unread p ++ a.received)
    (hbs : bs = [] ∨ w.conn.stopped = false ∧ bs <+: w.unread p ++ a.received) :
    ((w.note a c' bs).conn.stopped = false →
      (w.note a c' bs).consumed ++ (w.note a c' bs).unread p' = (w.note a c' bs).sent) ∧
      (w.note a c' bs).consumed <+: (w.note a c' bs).sent := by
  rw [Watched.note_consumed h.parts, Watched.note_sent]
  refine ⟨fun ho => ?_, ?_⟩
  · obtain ⟨hw, hs⟩ := hlive ho
    rw [List.append_assoc, hs, ← List.append_assoc, h.stream hw]
  · rcases hbs with rfl | ⟨hw, hpre⟩
    · rw [List.append_nil]
      exact h.seen.trans (List.prefix_append _ _)
    · rw [← h.stream hw, List.append_assoc]
      exact (List.prefix_append_right_inj _).2 hpre

theorem Inv.note_done (h : Inv w p) (a : Action) (hdd : c'.dataDigest = w.conn.dataDigest)
    (hf : c'.between = true → w.conn.taking w.cur bs ≠ .empty →
      Framed w.conn.dataDigest (w.conn.taking w.cur bs)) :
    ∀ d ∈ (w.note a c' bs).done, Framed (w.note a c' bs).conn.dataDigest d := by
  intro d hd
  rw [Watched.note_conn, hdd]
  by_cases hfin : c'.between = true ∧ w.conn.taking w.cur bs ≠ .empty
  · rw [(w.note_finished a c' bs hfin.1 hfin.2).2.1, List.mem_append, List.mem_singleton] at hd
    rcases hd with hd | rfl
    · exact h.done d hd
    · exact hf hfin.1 hfin.2
  · have hun : c'.between = false ∨ w.conn.taking w.cur bs = .empty := by
      by_cases hb : c'.between = true
      · exact .inr (by simpa using fun hne => hfin ⟨hb, hne⟩)
      · exact .inl (by simpa using hb)
    rw [(w.note_unfinished a c' bs hun).2.1] at hd
    exact h.done d hd

/-! ## Steps that consume nothing -/

/-- A step that consumes nothing and stays in its phase; `PcOk` is left to show. -/
theorem Inv.idle (h : Inv w p) (a : Action) (c' : Conn) (hdd : c'.dataDigest = w.conn.dataDigest)
    (hphase : c'.phase = w.conn.phase) (hdec : c'.decoder = w.conn.decoder)
    (hlink : LinkOk c'.link p') (hsize : w.conn.link.SameSize c'.link)
    (hn : c'.link.queue.slots.nslots = w.conn.link.queue.slots.nslots)
    (hslots : ∀ t < c'.link.queue.slots.nslots, SlotInv (w.note a c' []) t)
    (hactive : ∀ t, w.conn.active = some t → c'.slot t = w.conn.slot t ∧
      ∀ b, borrows b (w.conn.slot t) = true → w.conn.link.Keeps c'.link b)
    (hb : c'.between = true → w.conn.between = true)
    (hfresh : (∃ win sqe n d, c'.pc = .awaitTag win sqe n d) →
      ∃ win sqe n d, w.conn.pc = .awaitTag win sqe n d)
    (hlive : c'.stopped = false → w.conn.stopped = false ∧
      (w.note a c' []).unread p' = w.unread p ++ a.received)
    (hpc : Beside w (w.note a c' []) → PcOk (w.note a c' []) p') : Inv (w.note a c' []) p' := by
  obtain ⟨hcur, hdone, hgot⟩ := h.note_idle a c' hb
  have hstream := h.note_stream a c' [] p' hlive (.inl rfl)
  have hbeside : Beside w (w.note a c' []) := by
    refine ⟨hdd, hphase, hdec, hsize, hcur, fun t ht => ?_⟩
    obtain ⟨hslot, hkeep⟩ := hactive t ht
    refine ⟨?_, hslot, hkeep⟩
    rw [hgot, hslot, (h.slots t (h.active t ht)).active ht, if_neg (by decide)]
  exact
    { link := hlink
      decoder := by rw [Watched.note_conn, hdec]; exact h.decoder
      open_ := by rw [Watched.note_conn, hdec]; exact h.open_
      fresh := by
        rw [Watched.note_conn, hphase, hdec]
        exact fun hor => h.fresh (hor.imp_right hfresh)
      slots := hslots
      active := fun t ht => by
        rw [Watched.note_conn, hn]
        rw [Watched.note_conn, Conn.active_of_phase hphase] at ht
        exact h.active t ht
      parts := h.parts.taking [] hphase (by rw [hcur, Conn.taking_nil])
      pc := hpc hbeside
      done := by
        rw [hdone, Watched.note_conn, hdd]
        exact h.done
      stream := hstream.1
      seen := hstream.2 }

end Ioutgt.Tcp
