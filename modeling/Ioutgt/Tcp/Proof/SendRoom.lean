import Ioutgt.Tcp.Proof.SendWire

/-!
# Staging stays in its room

The headroom test asks for a worst-case item. Every item stays below that, in header bytes and in
entries, so what passed the test is staged inside the arena and the list of entries; and a recycled
batch passes it at any queue size.

* `stagesWithin`: staging a batch, by induction along the items.
* `roomy_step`: one step of the sender, for any staging closure whose items are small enough.
* `staging_stays_in_room`: the NVMe/TCP send loop.
-/

namespace Ioutgt.Stream

open Lib Ioutgt.Uring SendTask

variable {W : Type} {s s' : SendTask W} {stage : Memory → W → Stage} {b b' : GatherSendBatch}
  {idx : Fin 2}

/-! ## Staging -/

/-- Piece by piece, a header is written inside the arena and an entry has its place in the list. -/
def Confined : List StagedPiece → Memory × GatherBatch → Prop
  | [], _ => True
  | p :: ps, x => x.2.arenaUsed + p.headerLen ≤ x.2.arenaLen ∧ Within (stagePiece x p).2 ∧
      Confined ps (stagePiece x p)

def StagesWithin (stage : Memory → W → Stage) (cap : Option Nat) :
    List W → GatherSendBatch → Memory → List Stage → Prop
  | [], _, _, _ => True
  | w :: ws, batch, memory, staged =>
    batch.fits = true →
      let st := stage memory w
      let x := st.apply memory batch.gather
      let batch' := { batch with gather := x.2 }.fileTag staged.length st.release
      Confined st.pieces (memory, batch.gather) ∧
        (capReached cap batch'.gather = false →
          StagesWithin stage cap ws batch' x.1 (staged ++ [st]))

/-- No item takes more of a batch than an item's share. -/
structure Small (stage : Memory → W → Stage) (b : GatherSendBatch) : Prop where
  arena : ∀ m w, ((stage m w).pieces.map StagedPiece.headerLen).sum ≤ b.arenaPerItem
  iovs : ∀ m w, (stage m w).pieces.length ≤ b.iovsPerItem

theorem Small.congr (h : Small stage b) (hroom : roomOf b' = roomOf b) : Small stage b' := by
  simp only [roomOf, Prod.mk.injEq] at hroom
  exact ⟨fun m w => hroom.2.2.1 ▸ h.arena m w, fun m w => hroom.2.2.2.2 ▸ h.iovs m w⟩

theorem fits_congr (hroom : roomOf b' = roomOf b) (hused : b'.gather.arenaUsed = b.gather.arenaUsed)
    (hiovs : b'.gather.iovs = b.gather.iovs) : b'.fits = b.fits := by
  simp only [roomOf, Prod.mk.injEq] at hroom
  simp only [GatherSendBatch.fits, GatherBatch.fits, hroom, hused, hiovs]

theorem Filled.within {g g' : GatherBatch} {used n : Nat} (h : Filled g g' used n)
    (harena : g.arenaUsed + used ≤ g.arenaLen) (hiovs : g.iovs.length + n ≤ g.iovCap) : Within g' := by
  have hframe := h.frame
  have hused := h.arenaUsed
  have hlen := h.iovs
  simp only [Prod.mk.injEq] at hframe
  exact ⟨by omega, by omega⟩

theorem confined : ∀ (ps : List StagedPiece) (x : Memory × GatherBatch),
    x.2.arenaUsed + (ps.map StagedPiece.headerLen).sum ≤ x.2.arenaLen →
    x.2.iovs.length + ps.length ≤ x.2.iovCap → Confined ps x
  | [], _, _, _ => trivial
  | p :: ps, x, harena, hiovs => by
    simp only [List.map_cons, List.sum_cons, List.length_cons] at harena hiovs
    have hp := stagePiece_filled x p
    have hframe := hp.frame
    have hused := hp.arenaUsed
    have hlen := hp.iovs
    simp only [Prod.mk.injEq] at hframe
    exact ⟨by omega, hp.within (by omega) (by omega), confined ps _ (by omega) (by omega)⟩

theorem stagesWithin (cap : Option Nat) : ∀ (ws : List W) (b : GatherSendBatch) (m : Memory)
    (staged : List Stage), Small stage b → let r := stageBatch stage cap ws b m staged
    StagesWithin stage cap ws b m staged ∧ roomOf r.batch = roomOf b ∧
      (Within b.gather → Within r.batch.gather)
  | [], b, m, staged, _ => ⟨trivial, rfl, id⟩
  | w :: ws, b, m, staged, hsmall => by
    simp only [stageBatch, StagesWithin]
    by_cases hfits : b.fits = true
    · obtain ⟨harena, hiovs⟩ : b.gather.arenaUsed + b.arenaPerItem ≤ b.gather.arenaLen ∧
          b.gather.iovs.length + b.iovsPerItem ≤ b.gather.iovCap := by
        simpa [GatherSendBatch.fits, GatherBatch.fits] using hfits
      replace harena := (Nat.add_le_add_left (hsmall.arena m w) _).trans harena
      replace hiovs := (Nat.add_le_add_left (hsmall.iovs m w) _).trans hiovs
      have hconfined : Confined (stage m w).pieces (m, b.gather) := confined _ _ harena hiovs
      have hwithin := (apply_filled (stage m w) m b.gather).within harena hiovs
      rw [if_pos hfits]
      obtain ⟨hgather, hroom⟩ := staged_room (stage m w) b m staged.length
      generalize (stage m w).apply m b.gather = x at hwithin hgather hroom ⊢
      generalize GatherSendBatch.fileTag { b with gather := x.2 } staged.length (stage m w).release = b₁
        at hgather hroom ⊢
      rw [← hgather] at hwithin
      obtain ⟨hrest, hroom', hwithin'⟩ := stagesWithin cap ws b₁ x.1 (staged ++ [stage m w])
        (hsmall.congr hroom)
      refine ⟨fun _ => ⟨hconfined, fun _ => hrest⟩, ?_⟩
      split
      · exact ⟨hroom, fun _ => hwithin⟩
      · exact ⟨hroom'.trans hroom, fun _ => hwithin' hwithin⟩
    · rw [if_neg hfits]
      exact ⟨fun h => absurd h hfits, rfl, id⟩

theorem stageBatch_rest (cap : Option Nat) : ∀ (ws : List W) (b : GatherSendBatch) (m : Memory)
    (staged : List Stage), let r := stageBatch stage cap ws b m staged
    staged <+: r.staged ∧ r.carry.toList ++ r.work <:+ ws
  | [], _, _, _ => by simp [stageBatch]
  | w :: ws, b, m, staged => by
    simp only [stageBatch]
    split
    · split
      · exact ⟨List.prefix_append .., List.suffix_cons w ws⟩
      · obtain ⟨hstaged, hleft⟩ := stageBatch_rest cap ws _ _ (staged ++ [stage m w])
        exact ⟨(List.prefix_append ..).trans hstaged, hleft.trans (List.suffix_cons w ws)⟩
    · exact ⟨List.prefix_rfl, List.suffix_rfl⟩

theorem stageBatch_first {cap : Option Nat} {w : W} {ws : List W} {m : Memory} {staged : List Stage}
    (hfits : b.fits = true) : let r := stageBatch stage cap (w :: ws) b m staged
    staged ++ [stage m w] <+: r.staged ∧ r.carry.toList ++ r.work <:+ ws := by
  simp only [stageBatch, if_pos hfits]
  split
  · exact ⟨List.prefix_rfl, List.suffix_rfl⟩
  · exact stageBatch_rest cap ws _ _ _

/-! ## Steps -/

structure Roomy (t : StreamSender) (s : SendTask W) : Prop where
  room : ∀ i, roomOf (s.batch i) = roomOf (t.batches i)
  within : ∀ i, Within (s.batch i).gather

variable {t : StreamSender}

theorem Roomy.kept (h : Roomy t s) (hkept : ∀ i, BatchKept (s.batch i) (s'.batch i)) : Roomy t s' :=
  ⟨fun i => (hkept i).room.trans (h.room i), fun i => (hkept i).within (h.within i)⟩

theorem Roomy.choose {first : W} (hsmall : ∀ i, Small stage (t.batches i)) (h : Roomy t s) :
    Roomy t (s.choose stage first) := by
  rw [SendTask.choose]
  split
  · exact ⟨h.room, h.within⟩
  · rename_i idx _
    obtain ⟨-, hroom, hwithin⟩ := stagesWithin (if s.sendZc then some s.sender.zcMinAvg else none)
      (first :: s.work) (s.batch idx) s.memory s.staged ((hsmall idx).congr (h.room idx))
    dsimp only
    generalize stageBatch stage (if s.sendZc then some s.sender.zcMinAvg else none) (first :: s.work)
      (s.batch idx) s.memory s.staged = r at hroom hwithin ⊢
    refine ⟨fun i => (setBatch_view roomOf hroom i).trans (h.room i), ?_⟩
    exact setBatch_rel (R := fun _ b => Within b.gather) h.within (hwithin (h.within idx))

theorem batchKept_landed (useZc : Bool) (n : Nat) (i : Fin 2) :
    BatchKept (s.batch i) ((s.landed idx useZc n).batch i) := by
  rw [landed]
  split
  · exact .refl _
  · split
    · exact (batchKept_took n i).trans (batchKept_retire i)
    · exact batchKept_took n i

theorem roomy_step {a : SendAction W} (hsmall : ∀ i, Small stage (t.batches i)) (h : Roomy t s)
    (hs : step stage s a = some s') : Roomy t s' := by
  cases stepped hs with
  | push w | close | store addr byte | notify op copied | await hplace harrived | refuse errno hplace =>
    exact ⟨h.room, h.within⟩
  | next hplace hnext => exact h.kept (quiet_next hplace hnext).batches
  | acquire hplace => exact h.kept (quiet_acquire hplace).batches
  | choose hplace => exact h.choose hsmall
  | reap hplace => exact h.kept (quiet_reap hplace).batches
  | ship hplace => exact h.kept (quiet_ship hplace).batches
  | drain hplace => exact h.kept (quiet_drain hplace).batches
  | @sentZc i n fixed res hplace =>
    refine h.kept fun j => ((quiet_stash i n).batches j).trans ?_
    cases res with
    | ok n => exact batchKept_landed true n j
    | error errno =>
      simp only [zcResult]
      split
      · exact .refl _
      · split <;> exact .refl _
  | @sentCopy i res hplace =>
    refine h.kept fun j => ?_
    cases res with
    | ok n => exact batchKept_landed false n j
    | error errno => exact .refl _

end Ioutgt.Stream

namespace Ioutgt.Tcp

open Lib Ioutgt.Core Ioutgt.Uring Ioutgt.Stream SendTask

/-! ## The send loop -/

theorem rawPieces_length_le : ∀ (segs : List Iovec) (n : Nat), (rawPieces segs n).length ≤ segs.length
  | [], _ => Nat.le_refl 0
  | seg :: segs, n => by
    rw [rawPieces]
    split
    · exact Nat.zero_le _
    · exact Nat.succ_le_succ (rawPieces_length_le segs _)

/-- An item whose slot has a lease of at most `MAX_SEGS` segments. -/
structure LeasedWork extends QueuedWork where
  few : segs.length ≤ SlotData.maxSegs

def LeasedWork.stage (sqhdDisabled hdrDigest dataDigest : Bool) (m : Memory) (w : LeasedWork) : Stage :=
  sendStage sqhdDisabled hdrDigest dataDigest m w.toQueuedWork

variable {sqhdDisabled hdrDigest dataDigest : Bool}

theorem sendPieces_length_le (m : Memory) (q : QueuedWork) :
    (sendPieces sqhdDisabled hdrDigest dataDigest m q).length ≤ q.segs.length + 3 := by
  obtain ⟨work, segs⟩ := q
  cases work with
  | r2t tag cid offset length => simp [sendPieces]
  | response c =>
    have hraw := rawPieces_length_le segs c.dataLen
    simp only [sendPieces]
    cases successElide sqhdDisabled c <;> cases dataDigest <;> split <;> simp <;> omega

def HeapApart (sqsize : Nat) (heap : Fin 2 → Nat) : Prop :=
  ∀ i j, i ≠ j → heap i + max (sqsize * arenaPerItem) 4096 ≤ heap j ∨
    heap j + max (sqsize * arenaPerItem) 4096 ≤ heap i

instance (sqsize : Nat) (heap : Fin 2 → Nat) : Decidable (HeapApart sqsize heap) :=
  inferInstanceAs (Decidable (∀ _ _, _ → _))

section New

variable {sqsize : Nat} {poolArena : Option (Nat × Nat)} {heap : Fin 2 → Nat} {zcMinAvg : Nat}

theorem new_small (i : Fin 2) : Small (LeasedWork.stage sqhdDisabled hdrDigest dataDigest)
    ((StreamSender.new sqsize arenaPerItem iovsPerItem poolArena heap zcMinAvg).batches i) := by
  constructor
  · intro m w
    cases poolArena <;> exact sendPieces_headerLen_le m w.toQueuedWork
  · intro m w
    cases poolArena <;>
      exact (sendPieces_length_le m w.toQueuedWork).trans (Nat.add_le_add_right w.few 3)

theorem new_fits (hsize : 1 ≤ sqsize) (i : Fin 2) :
    let b := (StreamSender.new sqsize arenaPerItem iovsPerItem poolArena heap zcMinAvg).batches i
    b.fits = true ∧ b.gather.iovCap ≤ uioMaxiov := by
  have harena : 0 + arenaPerItem ≤ sqsize * arenaPerItem := by
    rw [Nat.zero_add]
    exact Nat.le_mul_of_pos_left _ hsize
  have hiovs : 0 + iovsPerItem ≤ min (sqsize * iovsPerItem + iovsPerItem) uioMaxiov :=
    Nat.le_min.2 ⟨by omega, by decide⟩
  simp only [GatherSendBatch.fits, GatherBatch.fits, Bool.and_eq_true, decide_eq_true_eq]
  cases poolArena with
  | none => exact ⟨⟨harena.trans (Nat.le_max_left ..), hiovs⟩, Nat.min_le_right ..⟩
  | some arena => exact ⟨⟨harena, hiovs⟩, Nat.min_le_right ..⟩

theorem new_apart (hheap : poolArena = none → HeapApart sqsize heap) :
    let b := (StreamSender.new sqsize arenaPerItem iovsPerItem poolArena heap zcMinAvg).batches
    ((b 0).gather.arenaPtr + (b 0).gather.arenaLen ≤ (b 1).gather.arenaPtr ∨
      (b 1).gather.arenaPtr + (b 1).gather.arenaLen ≤ (b 0).gather.arenaPtr) ∧
      ∀ ptr index, poolArena = some (ptr, index) → ∀ i, ptr ≤ (b i).gather.arenaPtr ∧
        (b i).gather.arenaPtr + (b i).gather.arenaLen ≤ ptr + 2 * sqsize * arenaPerItem := by
  cases poolArena with
  | none => exact ⟨hheap rfl 0 1 (by decide), fun ptr index h => by cases h⟩
  | some arena =>
    obtain ⟨ptr, index⟩ := arena
    have h0 : ptr + 0 * (sqsize * arenaPerItem) + sqsize * arenaPerItem
        ≤ ptr + 1 * (sqsize * arenaPerItem) := by omega
    refine ⟨.inl h0, fun ptr' index' h i => ?_⟩
    cases h
    have hi := i.isLt
    show ptr ≤ ptr + i * (sqsize * arenaPerItem) ∧
      ptr + i * (sqsize * arenaPerItem) + sqsize * arenaPerItem ≤ ptr + 2 * sqsize * arenaPerItem
    have hle : i * (sqsize * arenaPerItem) ≤ 1 * (sqsize * arenaPerItem) :=
      Nat.mul_le_mul_right _ (by omega)
    rw [Nat.mul_assoc]
    omega

end New

/-- **Staging stays in its room.** For any queue size, arena and digests, over every run of the send
loop on items whose slots have at most `MAX_SEGS` segments: no batch has more staged than its arena and
its list of entries take, nor more entries than the kernel does; the arenas are apart, and those of a
pool inside the region reserved for them; a recycled batch passes the headroom test. When a batch is to
be staged, one is free and passes it; every header is then written inside its arena, every entry inside
its list, and the item in hand is staged, so that what is left was queued behind it. -/
theorem staging_stays_in_room (sqhdDisabled hdrDigest dataDigest : Bool) (sqsize : Nat)
    (hsize : 1 ≤ sqsize) (poolArena : Option (Nat × Nat)) (heap : Fin 2 → Nat)
    (hheap : poolArena = none → HeapApart sqsize heap) (zcMinAvg : Nat) (sendZc : Bool) (m : Memory)
    (as : List (SendAction LeasedWork)) (s : SendTask LeasedWork)
    (hrun : runFrom (step (LeasedWork.stage sqhdDisabled hdrDigest dataDigest))
      (start (.new sqsize arenaPerItem iovsPerItem poolArena heap zcMinAvg) sendZc m) as = some s) :
    (∀ i, (s.batch i).gather.arenaUsed ≤ (s.batch i).gather.arenaLen ∧
      (s.batch i).gather.iovs.length ≤ (s.batch i).gather.iovCap ∧
      (s.batch i).gather.iovCap ≤ uioMaxiov ∧ (s.batch i).reset.fits = true) ∧
    ((s.batch 0).gather.arenaPtr + (s.batch 0).gather.arenaLen ≤ (s.batch 1).gather.arenaPtr ∨
      (s.batch 1).gather.arenaPtr + (s.batch 1).gather.arenaLen ≤ (s.batch 0).gather.arenaPtr) ∧
    (∀ ptr index, poolArena = some (ptr, index) → ∀ i, ptr ≤ (s.batch i).gather.arenaPtr ∧
      (s.batch i).gather.arenaPtr + (s.batch i).gather.arenaLen ≤ ptr + 2 * sqsize * arenaPerItem) ∧
    ∀ first, s.place = .choose first → ∃ idx, s.sender.free = some idx ∧ (s.batch idx).fits = true ∧
      StagesWithin (LeasedWork.stage sqhdDisabled hdrDigest dataDigest)
        (if s.sendZc then some s.sender.zcMinAvg else none) (first :: s.work) (s.batch idx) s.memory
        s.staged ∧
      let s' := s.choose (LeasedWork.stage sqhdDisabled hdrDigest dataDigest) first
      s.staged ++ [LeasedWork.stage sqhdDisabled hdrDigest dataDigest s.memory first] <+: s'.staged ∧
        s'.carry.toList ++ s'.work <:+ s.work := by
  have hnew := @new_fits sqsize poolArena heap zcMinAvg hsize
  have hsmall := @new_small sqhdDisabled hdrDigest dataDigest sqsize poolArena heap zcMinAvg
  have hfresh := new_batch sqsize arenaPerItem iovsPerItem poolArena heap zcMinAvg
  obtain ⟨hapart, hregion⟩ := @new_apart sqsize poolArena heap zcMinAvg hheap
  obtain ⟨hnotifs, -⟩ := start_ok _ sqsize arenaPerItem iovsPerItem poolArena heap zcMinAvg sendZc m hrun
  generalize StreamSender.new sqsize arenaPerItem iovsPerItem poolArena heap zcMinAvg = t at *
  have hroomy : Roomy t s := by
    refine @runFrom_invariant _ _ (step (LeasedWork.stage sqhdDisabled hdrDigest dataDigest)) (Roomy t)
      (fun h hs => roomy_step hsmall h hs) as _ _ ⟨fun _ => rfl, fun i => ?_⟩ hrun
    show Within (t.batches i).gather
    exact ⟨(hfresh i).1.arenaUsed ▸ Nat.zero_le _, by rw [(hfresh i).1.iovs]; exact Nat.zero_le _⟩
  -- a batch with nothing staged has the headroom it was made with
  have hfits : ∀ (i : Fin 2) (b : GatherSendBatch), roomOf b = roomOf (s.batch i) →
      b.gather.arenaUsed = 0 → b.gather.iovs = [] → b.fits = true := by
    intro i b hroom hused hiovs
    refine (fits_congr (hroom.trans (hroomy.room i)) ?_ ?_).trans (hnew i).1
    · rw [hused, (hfresh i).1.arenaUsed]
    · rw [hiovs, (hfresh i).1.iovs]
  have hroom : ∀ i, (s.batch i).gather.arenaPtr = (t.batches i).gather.arenaPtr ∧
      (s.batch i).gather.arenaLen = (t.batches i).gather.arenaLen ∧
      (s.batch i).gather.iovCap = (t.batches i).gather.iovCap := fun i =>
    ⟨congrArg (·.1) (hroomy.room i), congrArg (·.2.1) (hroomy.room i),
      congrArg (·.2.2.2.1) (hroomy.room i)⟩
  refine ⟨fun i => ⟨(hroomy.within i).arena, (hroomy.within i).iovs, ?_, hfits i _ rfl rfl rfl⟩, ?_,
    fun ptr index h i => ?_, fun first hplace => ?_⟩
  · rw [(hroom i).2.2]
    exact (hnew i).2
  · rw [(hroom 0).1, (hroom 0).2.1, (hroom 1).1, (hroom 1).2.1]
    exact hapart
  · rw [(hroom i).1, (hroom i).2.1]
    exact hregion ptr index h i
  · obtain ⟨-, hidle, hlt⟩ := hnotifs.at_place hplace
    obtain ⟨idx, hfree, hidx⟩ := free_of_length_lt hlt
    have hfresh := hidle idx hidx (fun h => by cases h)
    have hfit := hfits idx (s.batch idx) rfl hfresh.arenaUsed hfresh.iovs
    refine ⟨idx, hfree, hfit, (stagesWithin _ _ _ _ _ ((hsmall idx).congr (hroomy.room idx))).1, ?_⟩
    simp only [SendTask.choose, hfree]
    exact stageBatch_first hfit

/-- The largest read response, from as many segments as a lease may have. -/
def largestResponse : LeasedWork :=
  ⟨⟨.response { tag := 0, cqe := .new 0 0 1 5 0, dataLen := 131072 },
    (List.range 32).map fun i => { base := i * 8192, len := 4096 }⟩, by decide⟩

/-- At the smallest queue size, with its arenas on the heap and both digests. -/
theorem staging_stays_in_room_largest : ∃ s, runFrom (step (LeasedWork.stage false true true))
    (start (.new 1 arenaPerItem iovsPerItem none (4096 * ·.val) 0) false fun _ => 0)
    [.push largestResponse, .run, .run] = some s ∧
    ∃ idx, s.sender.free = some idx ∧ (s.batch idx).fits = true ∧
      StagesWithin (LeasedWork.stage false true true) none [largestResponse] (s.batch idx) s.memory
        s.staged := by
  obtain ⟨-, -, -, hchoose⟩ := staging_stays_in_room false true true 1 (by decide) none (4096 * ·.val)
    (fun _ => by decide) 0 false (fun _ => 0) [.push largestResponse, .run, .run] _ rfl
  obtain ⟨idx, hfree, hfits, hstages, -⟩ := hchoose _ rfl
  exact ⟨_, rfl, idx, hfree, hfits, hstages⟩

end Ioutgt.Tcp
