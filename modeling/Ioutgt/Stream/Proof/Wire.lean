import Ioutgt.Stream.Proof.Sender
import Ioutgt.Stream.Wire

/-!
# The wire carries what was pushed

Staging appends an item's encoding to what the batch references, since a header goes to the free end
of the arena, which no entry and no slot covers. From then on the bytes of the batch only move from
its unsent entries to the wire. `Flow` says that wire, unsent entries and waiting items together are
the ledger; every step keeps it.

* `apply_spec`: staging one item.
* `stageBatch_spec`: staging a batch.
* `flow_step`: one step of the sender.
-/

namespace Ioutgt.Stream

open Lib Ioutgt.Uring SendTask

variable {W : Type} {s s' : SendTask W} {stage : Memory → W → Stage}
  {encode : Memory → W → List UInt8} {slot : W → List Iovec} {need : Nat} {idx : Fin 2}
  {p : Place W} {b : GatherSendBatch} {queued : List UInt8}

/-! ## Staging -/

def StagedPiece.bytes (m : Memory) : StagedPiece → List UInt8
  | .arena bytes => bytes
  | .raw ptr len => m.load ptr len

def StagedPiece.headerLen : StagedPiece → Nat
  | .arena bytes => bytes.length
  | .raw .. => 0

/-- The staging closure and what it stages: an item's pieces spell its encoding, which depends on the
item's slot only; payload is referenced there; and the headers fit the arena's share of an item. -/
structure Stages (stage : Memory → W → Stage) (encode : Memory → W → List UInt8)
    (slot : W → List Iovec) (need : Nat) : Prop where
  bytes : ∀ m w, (stage m w).pieces.flatMap (StagedPiece.bytes m) = encode m w
  reads : ∀ m m' w, (∀ e ∈ slot w, ∀ a, e.Covers a → m a = m' a) → encode m w = encode m' w
  raws : ∀ m w ptr len, .raw ptr len ∈ (stage m w).pieces →
    ∀ a, ptr ≤ a → a < ptr + len → ∃ e ∈ slot w, e.Covers a
  small : ∀ m w, ((stage m w).pieces.map StagedPiece.headerLen).sum ≤ need

def InTail (g : GatherBatch) (a : Nat) : Prop :=
  g.arenaPtr + g.arenaUsed ≤ a ∧ a < g.arenaPtr + g.arenaLen

/-- No entry references the free end of the arena. -/
def TailFree (g : GatherBatch) : Prop := ∀ e ∈ g.iovs, ∀ a, e.Covers a → ¬ InTail g a

/-- The gather has `used` bytes of its arena and at most `n` entries more. -/
structure Filled (g g' : GatherBatch) (used n : Nat) : Prop where
  arenaUsed : g'.arenaUsed = g.arenaUsed + used
  iovs : g'.iovs.length ≤ g.iovs.length + n
  frame : (g'.arenaPtr, g'.arenaLen, g'.iovCap, g'.live) = (g.arenaPtr, g.arenaLen, g.iovCap, g.live)

theorem stagePiece_filled (x : Memory × GatherBatch) (p : StagedPiece) :
    Filled x.2 (stagePiece x p).2 p.headerLen 1 := by
  cases p with
  | arena bytes =>
    obtain ⟨hframe, hiovs⟩ := { x.2 with arenaUsed := x.2.arenaUsed + bytes.length }.pushRaw_frame
      (x.2.arenaPtr + x.2.arenaUsed) bytes.length
    simp only [Prod.mk.injEq] at hframe
    exact ⟨hframe.2.2.1, hiovs, Prod.ext hframe.1 (Prod.ext hframe.2.1 (Prod.ext_iff.2 hframe.2.2.2))⟩
  | raw ptr len =>
    obtain ⟨hframe, hiovs⟩ := x.2.pushRaw_frame ptr len
    simp only [Prod.mk.injEq] at hframe
    exact ⟨hframe.2.2.1, hiovs, Prod.ext hframe.1 (Prod.ext hframe.2.1 (Prod.ext_iff.2 hframe.2.2.2))⟩

theorem foldl_filled : ∀ (ps : List StagedPiece) (x : Memory × GatherBatch),
    Filled x.2 (ps.foldl stagePiece x).2 (ps.map StagedPiece.headerLen).sum ps.length
  | [], x => ⟨rfl, Nat.le_refl _, rfl⟩
  | p :: ps, x => by
    have hp := stagePiece_filled x p
    have hrest := foldl_filled ps (stagePiece x p)
    refine ⟨?_, ?_, hrest.frame.trans hp.frame⟩
    · rw [List.foldl_cons, hrest.arenaUsed, hp.arenaUsed, List.map_cons, List.sum_cons, Nat.add_assoc]
    · have hiovs := hp.iovs
      have hiovs' := hrest.iovs
      rw [List.foldl_cons, List.length_cons]
      omega

/-- What staging pieces has done to memory and entries. -/
structure Grown (m : Memory) (g : GatherBatch) (m' : Memory) (g' : GatherBatch) (bytes : List UInt8) :
    Prop where
  gathered : gathered m' g'.iovs = Uring.gathered m g.iovs ++ bytes
  memory : ∀ a, ¬ InTail g a → m' a = m a
  tail : TailFree g'

theorem Filled.inTail {g g' : GatherBatch} {used n a : Nat} (h : Filled g g' used n) :
    InTail g' a ↔ g.arenaPtr + (g.arenaUsed + used) ≤ a ∧ a < g.arenaPtr + g.arenaLen := by
  have hframe := h.frame
  simp only [Prod.mk.injEq] at hframe
  simp only [InTail, hframe, h.arenaUsed]

theorem stagePiece_grown {m : Memory} {g : GatherBatch} {p : StagedPiece} (htail : TailFree g)
    (hfit : g.arenaUsed + p.headerLen ≤ g.arenaLen)
    (hraw : ∀ ptr len, p = .raw ptr len → ∀ a, ptr ≤ a → a < ptr + len → ¬ InTail g a) :
    Grown m g (stagePiece (m, g) p).1 (stagePiece (m, g) p).2 (p.bytes m) := by
  have hfilled := stagePiece_filled (m, g) p
  cases p with
  | arena bytes =>
    have hfit : g.arenaUsed + bytes.length ≤ g.arenaLen := hfit
    have hmem : ∀ a, ¬ InTail g a → m.store (g.arenaPtr + g.arenaUsed) bytes a = m a := by
      intro a ha
      refine Memory.store_of_outside ?_
      simp only [InTail] at ha
      omega
    refine ⟨?_, hmem, ?_⟩
    · show gathered (m.store (g.arenaPtr + g.arenaUsed) bytes) (g.pushArena bytes.length).iovs = _
      rw [GatherBatch.pushArena, GatherBatch.gathered_pushRaw, Memory.load_store]
      congr 1
      exact gathered_congr fun e he a ha => hmem a (htail e he a ha)
    · intro e he a ha htail'
      obtain ⟨hlo, hhi⟩ : g.arenaPtr + (g.arenaUsed + bytes.length) ≤ a ∧ a < g.arenaPtr + g.arenaLen :=
        hfilled.inTail.1 htail'
      have hcov : (∃ f ∈ g.iovs, f.Covers a) ∨ (g.arenaPtr + g.arenaUsed ≤ a ∧
          a < g.arenaPtr + g.arenaUsed + bytes.length) :=
        GatherBatch.pushRaw_covers (g := { g with arenaUsed := g.arenaUsed + bytes.length }) he ha
      rcases hcov with ⟨f, hf, hcov⟩ | hcov
      · exact htail f hf a hcov ⟨by omega, by omega⟩
      · omega
  | raw ptr len =>
    refine ⟨GatherBatch.gathered_pushRaw m g ptr len, fun _ _ => rfl, fun e he a ha htail' => ?_⟩
    have htail' : InTail g a := hfilled.inTail.1 htail'
    rcases GatherBatch.pushRaw_covers he ha with ⟨f, hf, hcov⟩ | hcov
    · exact htail f hf a hcov htail'
    · exact hraw ptr len rfl a hcov.1 hcov.2 htail'

theorem foldl_grown : ∀ (ps : List StagedPiece) {m : Memory} {g : GatherBatch}, TailFree g →
    g.arenaUsed + (ps.map StagedPiece.headerLen).sum ≤ g.arenaLen →
    (∀ ptr len, .raw ptr len ∈ ps → ∀ a, ptr ≤ a → a < ptr + len → ¬ InTail g a) →
    Grown m g (ps.foldl stagePiece (m, g)).1 (ps.foldl stagePiece (m, g)).2
      (ps.flatMap (StagedPiece.bytes m))
  | [], m, g, htail, _, _ => ⟨by simp, fun _ _ => rfl, htail⟩
  | p :: ps, m, g, htail, hfit, hraw => by
    simp only [List.map_cons, List.sum_cons] at hfit
    have hp : Grown m g (stagePiece (m, g) p).1 (stagePiece (m, g) p).2 (p.bytes m) :=
      stagePiece_grown htail (by omega) fun ptr len h a => hraw ptr len (by simp [h]) a
    have hfilled := stagePiece_filled (m, g) p
    rw [List.foldl_cons]
    generalize stagePiece (m, g) p = x at hp hfilled ⊢
    obtain ⟨m₁, g₁⟩ := x
    replace hp : Grown m g m₁ g₁ (p.bytes m) := hp
    replace hfilled : Filled g g₁ p.headerLen 1 := hfilled
    have hsub : ∀ a, InTail g₁ a → InTail g a := by
      intro a ha
      have := hfilled.inTail.1 ha
      exact ⟨by omega, this.2⟩
    have hfit₁ : g₁.arenaUsed + (ps.map StagedPiece.headerLen).sum ≤ g₁.arenaLen := by
      have hframe := hfilled.frame
      simp only [Prod.mk.injEq] at hframe
      rw [hfilled.arenaUsed, hframe.2.1]
      omega
    have hrest := foldl_grown ps (m := m₁) (g := g₁) hp.tail hfit₁
      fun ptr len h a hlo hhi ha => hraw ptr len (by simp [h]) a hlo hhi (hsub a ha)
    -- the bytes of the later pieces are not where the header went
    have hbytes : ps.flatMap (StagedPiece.bytes m₁) = ps.flatMap (StagedPiece.bytes m) := by
      refine List.flatMap_congr fun q hq => ?_
      cases q with
      | arena bytes => rfl
      | raw ptr len =>
        exact Memory.load_congr fun a hlo hhi => hp.memory a (hraw ptr len (by simp [hq]) a hlo hhi)
    refine ⟨?_, fun a ha => ?_, hrest.tail⟩
    · rw [hrest.gathered, hp.gathered, hbytes]
      simp
    · rw [hrest.memory a fun h => ha (hsub a h), hp.memory a ha]

theorem apply_filled (st : Stage) (m : Memory) (g : GatherBatch) : Filled g (st.apply m g).2
    (st.pieces.map StagedPiece.headerLen).sum st.pieces.length := by
  have h := foldl_filled st.pieces (m, g)
  rw [Stage.apply]
  cases st.payload with
  | none => exact h
  | some n => exact ⟨h.arenaUsed, h.iovs, h.frame⟩

theorem apply_grown (st : Stage) {m : Memory} {g : GatherBatch} (htail : TailFree g)
    (hfit : g.arenaUsed + (st.pieces.map StagedPiece.headerLen).sum ≤ g.arenaLen)
    (hraw : ∀ ptr len, .raw ptr len ∈ st.pieces → ∀ a, ptr ≤ a → a < ptr + len → ¬ InTail g a) :
    Grown m g (st.apply m g).1 (st.apply m g).2 (st.pieces.flatMap (StagedPiece.bytes m)) := by
  have h := foldl_grown st.pieces (m := m) htail hfit hraw
  rw [Stage.apply]
  cases st.payload with
  | none => exact h
  | some n => exact ⟨h.gathered, h.memory, h.tail⟩

/-! ## Batches keep their room -/

def roomOf (b : GatherSendBatch) : Nat × Nat × Nat × Nat × Nat :=
  (b.gather.arenaPtr, b.gather.arenaLen, b.arenaPerItem, b.gather.iovCap, b.iovsPerItem)

theorem OutsideArena.congr {b' : GatherSendBatch} {e : Iovec} (h : OutsideArena b e)
    (heq : roomOf b' = roomOf b) : OutsideArena b' e := by
  simp only [roomOf, Prod.mk.injEq] at heq
  simp only [OutsideArena, heq.1, heq.2.1]
  exact h

theorem OutsideArena.not_inTail {e : Iovec} {a : Nat} (h : OutsideArena b e) (ha : e.Covers a) :
    ¬ InTail b.gather a := by
  simp only [OutsideArena, InTail, Iovec.Covers] at *
  omega

theorem staged_room (st : Stage) (b : GatherSendBatch) (m : Memory) (n : Nat) :
    let b' := { b with gather := (st.apply m b.gather).2 }.fileTag n st.release
    b'.gather = (st.apply m b.gather).2 ∧ roomOf b' = roomOf b := by
  have hframe := (apply_filled st m b.gather).frame
  simp only [Prod.mk.injEq] at hframe
  cases st.release <;> exact ⟨rfl, by simp only [roomOf, GatherSendBatch.fileTag, hframe]⟩

theorem stageBatch_spec (hst : Stages stage encode slot need) (cap : Option Nat) :
    ∀ (ws : List W) (b : GatherSendBatch) (m : Memory) (staged : List Stage), TailFree b.gather →
    b.arenaPerItem = need → (∀ w ∈ ws, ∀ e ∈ slot w, OutsideArena b e) →
    let r := stageBatch stage cap ws b m staged
    gathered r.memory r.batch.gather.iovs ++ (r.carry.toList ++ r.work).flatMap (encode r.memory) =
        gathered m b.gather.iovs ++ ws.flatMap (encode m) ∧
      roomOf r.batch = roomOf b ∧ r.batch.gather.live = b.gather.live ∧
      r.carry.toList ++ r.work ⊆ ws
  | [], b, m, staged, _, _, _ => by simp [stageBatch]
  | w :: ws, b, m, staged, htail, hneed, hout => by
    simp only [stageBatch]
    split
    · rename_i hfits
      have hfit : b.gather.arenaUsed + need ≤ b.gather.arenaLen := by
        simp only [GatherSendBatch.fits, GatherBatch.fits, Bool.and_eq_true, decide_eq_true_eq] at hfits
        omega
      have hgrown := apply_grown (stage m w) (m := m) htail
        (by have := hst.small m w; omega) fun ptr len hmem a hlo hhi => by
          obtain ⟨e, he, hcov⟩ := hst.raws m w ptr len hmem a hlo hhi
          exact (hout w (by simp) e he).not_inTail hcov
      rw [hst.bytes] at hgrown
      have hframe := (apply_filled (stage m w) m b.gather).frame
      simp only [Prod.mk.injEq] at hframe
      have hlive := hframe.2.2.2
      obtain ⟨hgather, hroom⟩ := staged_room (stage m w) b m staged.length
      generalize (stage m w).apply m b.gather = x at hgrown hlive hgather hroom ⊢
      generalize GatherSendBatch.fileTag { b with gather := x.2 } staged.length (stage m w).release = b₁
        at hgather hroom ⊢
      -- the headers went to the free end of the arena, so the later items read as before
      have hrest : ws.flatMap (encode x.1) = ws.flatMap (encode m) := by
        refine List.flatMap_congr fun v hv => hst.reads _ _ v fun e he a ha => ?_
        exact hgrown.memory a ((hout v (by simp [hv]) e he).not_inTail ha)
      have hgathered : gathered x.1 b₁.gather.iovs = gathered m b.gather.iovs ++ encode m w := by
        rw [hgather]
        exact hgrown.gathered
      split
      · refine ⟨?_, hroom, ?_, fun v hv => ?_⟩
        · simp [hgathered, hrest]
        · rw [hgather]
          exact hlive
        · simpa using .inr hv
      · obtain ⟨heq, hroom', hlive', hsub⟩ := stageBatch_spec hst cap ws b₁ x.1 (staged ++ [stage m w])
          (by rw [hgather]; exact hgrown.tail) ((congrArg (·.2.2.1) hroom).trans hneed)
          fun v hv e he => (hout v (by simp [hv]) e he).congr hroom
        refine ⟨?_, hroom'.trans hroom, ?_, fun v hv => by simp [hsub hv]⟩
        · rw [heq, hgathered, hrest]
          simp
        · rw [hlive', hgather]
          exact hlive
    · simp

/-! ## Steps that move no bytes -/

def gatherOf (b : GatherSendBatch) : GatherBatch × Nat × Nat := (b.gather, b.arenaPerItem, b.iovsPerItem)

theorem unsent_of_none (h : s.place.shipping = none) : s.unsent = [] := by
  rw [SendTask.unsent, h]

theorem unsent_of_some (h : s.place.shipping = some idx) :
    s.unsent = (s.batch idx).gather.liveIov := by
  rw [SendTask.unsent, h]

def LiveOk (b : GatherSendBatch) : Prop := b.gather.live ≤ b.gather.iovs.length

/-- What is staged is inside the arena and the list of entries. -/
structure Within (g : GatherBatch) : Prop where
  arena : g.arenaUsed ≤ g.arenaLen
  iovs : g.iovs.length ≤ g.iovCap

/-- The batch keeps its room and stays within it. -/
structure BatchKept (b b' : GatherSendBatch) : Prop where
  room : roomOf b' = roomOf b
  live : LiveOk b → LiveOk b'
  within : Within b.gather → Within b'.gather

theorem BatchKept.refl (b : GatherSendBatch) : BatchKept b b := ⟨rfl, id, id⟩

theorem BatchKept.trans {b₁ b₂ : GatherSendBatch} (h : BatchKept b b₁) (h' : BatchKept b₁ b₂) :
    BatchKept b b₂ :=
  ⟨h'.room.trans h.room, fun hb => h'.live (h.live hb), fun hb => h'.within (h.within hb)⟩

theorem BatchKept.of_gatherOf {b' : GatherSendBatch} (h : gatherOf b' = gatherOf b) : BatchKept b b' := by
  simp only [gatherOf, Prod.mk.injEq] at h
  obtain ⟨hgather, hshare, hiovs⟩ := h
  constructor <;> simp [roomOf, LiveOk, hgather, hshare, hiovs]

theorem batchKept_recycle (i : Fin 2) : BatchKept (s.batch i) ((s.recycle idx).batch i) := by
  refine setBatch_rel (R := BatchKept) (fun _ => .refl _) ?_ i
  exact ⟨rfl, fun _ => Nat.le_refl 0, fun _ => ⟨Nat.zero_le _, Nat.zero_le _⟩⟩

theorem batchKept_took (n : Nat) (i : Fin 2) : BatchKept (s.batch i) ((s.took idx n).batch i) := by
  refine setBatch_rel (R := BatchKept) (fun _ => .refl _) ?_ i
  refine ⟨rfl, GatherBatch.advance_live_le _ n, fun h => ⟨h.arena, ?_⟩⟩
  rw [GatherBatch.advance_length]
  exact h.iovs

/-- A step of the task that neither stages nor sends. -/
structure Quiet (s s' : SendTask W) : Prop where
  batches : ∀ i, BatchKept (s.batch i) (s'.batch i)
  wire : s'.wire = s.wire
  memory : s'.memory = s.memory
  waiting : s'.waiting = s.waiting
  unsent : s'.unsent = s.unsent
  failed : s'.place.failed = false → s.place.failed = false
  single : (s.place.item ≠ [] → s.carry = none) → s'.place.item ≠ [] → s'.carry = none

theorem quiet_goto {q : Place W} (hplace : s.place = p) (hplace' : s'.place = q)
    (hbatch : ∀ i, gatherOf (s'.batch i) = gatherOf (s.batch i))
    (hrest : (s'.wire, s'.memory, s'.carry, s'.work) = (s.wire, s.memory, s.carry, s.work))
    (hitem : q.item = p.item) (hshipping : q.shipping = p.shipping)
    (hfailed : q.failed = false → p.failed = false) : Quiet s s' := by
  subst hplace hplace'
  simp only [Prod.mk.injEq] at hrest
  obtain ⟨hwire, hmemory, hcarry, hwork⟩ := hrest
  have hgather : ∀ i, (s'.batch i).gather = (s.batch i).gather := fun i => (Prod.mk.inj (hbatch i)).1
  refine ⟨fun i => .of_gatherOf (hbatch i), hwire, hmemory, ?_, ?_, hfailed, fun h hitem' => ?_⟩
  · rw [SendTask.waiting, SendTask.waiting, hitem, hcarry, hwork]
  · simp only [SendTask.unsent, hshipping, hgather]
  · rw [hcarry]
    exact h (hitem ▸ hitem')

theorem quiet_between {q : Place W} (hplace : s.place = p) (hplace' : s'.place = q)
    (hbatch : ∀ i, BatchKept (s.batch i) (s'.batch i))
    (hrest : (s'.wire, s'.memory) = (s.wire, s.memory))
    (hwaiting : q.item ++ s'.carry.toList ++ s'.work = p.item ++ s.carry.toList ++ s.work)
    (hp : p.shipping = none) (hq : q.shipping = none)
    (hfailed : q.failed = false → p.failed = false)
    (hsingle : (p.item ≠ [] → s.carry = none) → q.item ≠ [] → s'.carry = none) : Quiet s s' := by
  subst hplace hplace'
  obtain ⟨hwire, hmemory⟩ := Prod.mk.inj hrest
  exact ⟨hbatch, hwire, hmemory, hwaiting, (unsent_of_none hq).trans (unsent_of_none hp).symm, hfailed,
    hsingle⟩

theorem quiet_pollFront {rest : List (Fin 2)} (hplace : s.place = .top) :
    Quiet s (s.pollFront idx rest) := by
  obtain ⟨left, -, hcases⟩ := pollFront_cases s idx rest
  have hpolled : ∀ i, gatherOf ((s.polled idx left).batch i) = gatherOf (s.batch i) := by
    intro i
    refine setBatch_view gatherOf ?_ i
    rfl
  rcases hcases with ⟨-, heq⟩ | heq
  · rw [heq]
    exact quiet_between hplace hplace
      (fun i => (BatchKept.of_gatherOf (hpolled i)).trans (batchKept_recycle i)) rfl rfl rfl rfl id id
  · exact heq ▸ quiet_goto rfl rfl hpolled rfl rfl rfl id

theorem quiet_next (hplace : s.place = .top) (hs : s.next = some s') : Quiet s s' := by
  simp only [next] at hs
  split at hs
  · -- the item carried over
    rename_i w hcarry
    obtain rfl := Option.some.inj hs
    exact quiet_between hplace rfl (fun _ => .refl _) rfl (by simp [hcarry, Place.item]) rfl rfl
      (fun _ => rfl) fun _ _ => rfl
  · rename_i w ws hcarry hwork
    obtain rfl := Option.some.inj hs
    exact quiet_between hplace rfl (fun _ => .refl _) rfl (by simp [hcarry, hwork, Place.item]) rfl rfl
      (fun _ => rfl) fun _ _ => hcarry
  · split at hs
    · obtain rfl := Option.some.inj hs
      exact quiet_goto hplace rfl (fun _ => rfl) rfl rfl rfl fun _ => rfl
    · split at hs
      · cases hs
      · obtain rfl := Option.some.inj hs
        exact quiet_pollFront hplace

theorem quiet_acquire {first : W} (hplace : s.place = .acquire first) : Quiet s (s.acquire first) := by
  have hchoose : Quiet s { s with place := .choose first } :=
    quiet_goto hplace rfl (fun _ => rfl) rfl rfl rfl id
  rw [acquire]
  split
  · split
    · exact quiet_goto hplace rfl (fun _ => rfl) rfl rfl rfl id
    · exact hchoose
  · exact hchoose

theorem quiet_reap {after : After W} (hplace : s.place = .reap idx after) :
    Quiet s (s.reap idx after) := by
  rw [reap]
  split
  · rename_i op _
    refine quiet_goto (q := .await idx op after) hplace rfl (fun i => ?_) rfl ?_ rfl id
    · refine setBatch_view gatherOf ?_ i
      rfl
    · cases after <;> rfl
  · -- the batch is recycled
    have hafter : (afterReap idx after).item = (Place.reap idx after).item ∧
        (afterReap idx after).shipping = none ∧
        ((afterReap idx after).failed = false → (Place.reap idx after).failed = false) := by
      cases after with
      | choose first => exact ⟨rfl, rfl, id⟩
      | drain r => exact ⟨rfl, rfl, id⟩
      | last r =>
        simp only [afterReap]
        split
        · exact ⟨rfl, rfl, id⟩
        · exact ⟨rfl, rfl, id⟩
    obtain ⟨hitem, hshipping, hfailed⟩ := hafter
    refine quiet_between hplace rfl (fun i => batchKept_recycle i) rfl ?_ rfl hshipping hfailed ?_
    · rw [hitem]
      rfl
    · rw [hitem]
      exact id

theorem quiet_ship {useZc : Bool} (hplace : s.place = .ship idx useZc) : Quiet s (s.ship idx useZc) := by
  cases useZc with
  | false => exact quiet_goto hplace rfl (fun _ => rfl) rfl rfl rfl id
  | true => exact quiet_goto hplace rfl (fun _ => rfl) rfl rfl rfl id

theorem quiet_drain {r : Result} (hplace : s.place = .drain r) : Quiet s (s.drain r) := by
  rw [drain]
  split
  · exact quiet_goto hplace rfl (fun _ => rfl) rfl rfl rfl id
  · exact quiet_goto hplace rfl (fun _ => rfl) rfl rfl rfl id

/-! ## The ledger -/

/-- Wire, unsent entries and waiting items together spell what was pushed. -/
structure Flow (encode : Memory → W → List UInt8) (slot : W → List Iovec) (need : Nat)
    (l : Ledger W) : Prop where
  share : ∀ i, (l.task.batch i).arenaPerItem = need
  apart : ∀ w ∈ l.task.waiting, ∀ e ∈ slot w, ∀ i, OutsideArena (l.task.batch i) e
  single : l.task.place.item ≠ [] → l.task.carry = none
  live : ∀ i, LiveOk (l.task.batch i)
  spelled : l.task.place.failed = false →
    l.task.wire ++ gathered l.task.memory l.task.unsent ++
      l.task.waiting.flatMap (encode l.task.memory) = l.queued

theorem Flow.quiet (h : Flow encode slot need ⟨s, queued⟩) (hq : Quiet s s') :
    Flow encode slot need ⟨s', queued⟩ where
  share i := (congrArg (·.2.2.1) (hq.batches i).room).trans (h.share i)
  apart w hw e he i := (h.apart w (hq.waiting ▸ hw) e he i).congr (hq.batches i).room
  single := hq.single h.single
  live i := (hq.batches i).live (h.live i)
  spelled hfailed := by
    show s'.wire ++ gathered s'.memory s'.unsent ++ s'.waiting.flatMap (encode s'.memory) = queued
    rw [hq.wire, hq.memory, hq.unsent, hq.waiting]
    exact h.spelled (hq.failed hfailed)

theorem flow_push {w : W} (h : Flow encode slot need ⟨s, queued⟩)
    (hw : ∀ e ∈ slot w, ∀ i, OutsideArena (s.batch i) e) :
    Flow encode slot need ⟨{ s with work := s.work ++ [w] }, queued ++ encode s.memory w⟩ where
  share := h.share
  apart v hv e he i := by
    have hv : v ∈ s.waiting ++ [w] := by simpa [SendTask.waiting] using hv
    rcases List.mem_append.1 hv with hv | hv
    · exact h.apart v hv e he i
    · obtain rfl := List.mem_singleton.1 hv
      exact hw e he i
  single := h.single
  live := h.live
  spelled hfailed := by
    have hold : s.wire ++ gathered s.memory s.unsent ++ s.waiting.flatMap (encode s.memory) = queued :=
      h.spelled hfailed
    have hwaiting : ({ s with work := s.work ++ [w] } : SendTask W).waiting = s.waiting ++ [w] := by
      simp [SendTask.waiting]
    show s.wire ++ gathered s.memory s.unsent ++
      ({ s with work := s.work ++ [w] } : SendTask W).waiting.flatMap (encode s.memory) = _
    rw [hwaiting, ← hold]
    simp

theorem flow_store {addr : Nat} {byte : UInt8} (hst : Stages stage encode slot need)
    (h : Flow encode slot need ⟨s, queued⟩)
    (hwaiting : ∀ w ∈ s.waiting, ∀ e ∈ slot w, ¬ e.Covers addr)
    (hunsent : ∀ e ∈ s.unsent, ¬ e.Covers addr) :
    Flow encode slot need ⟨{ s with memory := Function.update s.memory addr byte }, queued⟩ where
  share := h.share
  apart := h.apart
  single := h.single
  live := h.live
  spelled hfailed := by
    have hsame : ∀ {e : Iovec} {a}, ¬ e.Covers addr → e.Covers a →
        Function.update s.memory addr byte a = s.memory a := by
      intro e a hnot ha
      refine Function.update_of_ne ?_ _ _
      rintro rfl
      exact hnot ha
    have henc : s.waiting.flatMap (encode (Function.update s.memory addr byte)) =
        s.waiting.flatMap (encode s.memory) :=
      List.flatMap_congr fun w hw => hst.reads _ _ w fun e he a ha => hsame (hwaiting w hw e he) ha
    have hgath : gathered (Function.update s.memory addr byte) s.unsent = gathered s.memory s.unsent :=
      gathered_congr fun e he a ha => hsame (hunsent e he) ha
    show s.wire ++ gathered (Function.update s.memory addr byte) s.unsent ++
      s.waiting.flatMap (encode (Function.update s.memory addr byte)) = queued
    rw [henc, hgath]
    exact h.spelled hfailed

theorem flow_choose {first : W} (hst : Stages stage encode slot need)
    (h : Flow encode slot need ⟨s, queued⟩) (hplace : s.place = .choose first) (hidle : s.Idle none)
    (hroom : s.sender.inflight.length < 2) :
    Flow encode slot need ⟨s.choose stage first, queued⟩ := by
  obtain ⟨idx, hfree, hidx⟩ := free_of_length_lt hroom
  have hcarry : s.carry = none := h.single (by simp [hplace, Place.item])
  have hwaiting : s.waiting = first :: s.work := by simp [SendTask.waiting, hplace, hcarry, Place.item]
  obtain ⟨-, hiovs, hlive, -⟩ := hidle idx hidx nofun
  have hspec := stageBatch_spec hst (if s.sendZc then some s.sender.zcMinAvg else none)
    (first :: s.work) (s.batch idx) s.memory s.staged (by intro e he; rw [hiovs] at he; cases he)
    (h.share idx) fun w hw e he => h.apart w (hwaiting ▸ hw) e he idx
  simp only [choose, hfree]
  generalize stageBatch stage (if s.sendZc then some s.sender.zcMinAvg else none) (first :: s.work)
    (s.batch idx) s.memory s.staged = r at hspec ⊢
  obtain ⟨heq, harena, hlive', hsub⟩ := hspec
  have harena' : ∀ i, roomOf ((s.setBatch idx r.batch).batch i) = roomOf (s.batch i) :=
    setBatch_view roomOf harena
  refine ⟨fun i => (congrArg (·.2.2.1) (harena' i)).trans (h.share i), fun w hw e he i => ?_,
    fun hitem => absurd rfl hitem, ?_, fun _ => ?_⟩
  · refine (h.apart w ?_ e he i).congr (harena' i)
    show w ∈ s.waiting
    rw [hwaiting]
    exact hsub hw
  · refine setBatch_rel (R := fun _ => LiveOk) h.live ?_
    rw [LiveOk]
    omega
  · have hold : s.wire ++ gathered s.memory s.unsent ++ s.waiting.flatMap (encode s.memory) = queued :=
      h.spelled (by simp [hplace, Place.failed])
    have hbatch : (s.setBatch idx r.batch).batch idx = r.batch := batch_setBatch_self r.batch
    rw [unsent_of_none (by rw [hplace]; rfl), hwaiting] at hold
    show s.wire ++ gathered r.memory ((s.setBatch idx r.batch).batch idx).gather.liveIov ++
      (r.carry.toList ++ r.work).flatMap (encode r.memory) = queued
    rw [hbatch, GatherBatch.liveIov, hlive', hlive, List.drop_zero, List.append_assoc, heq, hiovs, ← hold]
    simp

/-! ### Results of a send -/

theorem shipping_spec (h : p.shipping = some idx) : p.item = [] ∧ p.failed = false := by
  cases p with
  | ship | sentZc | sentCopy => exact ⟨rfl, rfl⟩
  | _ => simp [Place.shipping] at h

theorem Flow.fail {r : Result} (h : Flow encode slot need ⟨s, queued⟩) (hr : r ≠ .ok)
    (hitem : s.place.item = []) :
    Flow encode slot need ⟨{ s with place := .drain r }, queued⟩ where
  share := h.share
  apart w hw := h.apart w (by
    show w ∈ s.place.item ++ s.carry.toList ++ s.work
    rw [hitem]
    exact hw)
  single h := absurd rfl h
  live := h.live
  spelled hfailed := by simp [Place.failed, hr] at hfailed

theorem flow_took {n : Nat} (h : Flow encode slot need ⟨s, queued⟩)
    (hshipping : s.place.shipping = some idx) : Flow encode slot need ⟨s.took idx n, queued⟩ := by
  have hself : (s.took idx n).batch idx =
      { s.batch idx with gather := ((s.batch idx).gather.advance n).1 } := batch_setBatch_self _
  refine ⟨fun i => (congrArg (·.2.2.1) (batchKept_took n i).room).trans (h.share i),
    fun w hw e he i => (h.apart w hw e he i).congr (batchKept_took n i).room, h.single,
    fun i => (batchKept_took n i).live (h.live i), fun _ => ?_⟩
  · have hold : s.wire ++ gathered s.memory s.unsent ++ s.waiting.flatMap (encode s.memory) = queued :=
      h.spelled (shipping_spec hshipping).2
    rw [unsent_of_some hshipping] at hold
    show s.wire ++ (gathered s.memory (s.batch idx).gather.liveIov).take n ++
      gathered s.memory (s.took idx n).unsent ++ s.waiting.flatMap (encode s.memory) = queued
    rw [unsent_of_some (s := s.took idx n) hshipping, hself,
      GatherBatch.gathered_advance _ _ _ (h.live idx), List.append_assoc s.wire,
      List.take_append_drop]
    exact hold

theorem batchKept_retire (i : Fin 2) : BatchKept (s.batch i) ((s.retire idx).batch i) := by
  have hgather : ∀ i, gatherOf (((s.releaseTags idx (s.batch idx).tagsAtCqe).setBatch idx
      { s.batch idx with tagsAtCqe := [] }).batch i) = gatherOf (s.batch i) := by
    intro i
    refine setBatch_view gatherOf ?_ i
    rfl
  simp only [retire]
  split
  · exact (BatchKept.of_gatherOf (hgather i)).trans (batchKept_recycle i)
  · exact .of_gatherOf (hgather i)

theorem quiet_retire (hshipping : s.place.shipping = some idx) (hnil : s.unsent = []) :
    Quiet s { s.retire idx with place := .top } := by
  obtain ⟨hitem, hfailed⟩ := shipping_spec hshipping
  have hrest : ((s.retire idx).wire, (s.retire idx).memory, (s.retire idx).carry, (s.retire idx).work) =
      (s.wire, s.memory, s.carry, s.work) := by
    simp only [retire]
    split <;> rfl
  simp only [Prod.mk.injEq] at hrest
  obtain ⟨hwire, hmemory, hcarry, hwork⟩ := hrest
  refine ⟨fun i => batchKept_retire i, hwire, hmemory, ?_, (unsent_of_none rfl).trans hnil.symm,
    fun _ => hfailed, fun _ h => absurd rfl h⟩
  show [] ++ (s.retire idx).carry.toList ++ (s.retire idx).work = s.waiting
  rw [hcarry, hwork, SendTask.waiting, hitem]

theorem flow_landed {useZc : Bool} {n : Nat} (h : Flow encode slot need ⟨s, queued⟩)
    (hshipping : s.place.shipping = some idx) :
    Flow encode slot need ⟨s.landed idx useZc n, queued⟩ := by
  obtain ⟨hitem, hfailed⟩ := shipping_spec hshipping
  have htook : Flow encode slot need ⟨s.took idx n, queued⟩ := flow_took h hshipping
  rw [landed]
  split
  · exact h.fail (by simp) hitem
  · split
    · rename_i hdone
      refine htook.quiet (quiet_retire hshipping ?_)
      rw [unsent_of_some (s := s.took idx n) hshipping]
      have hself : (s.took idx n).batch idx =
        { s.batch idx with gather := ((s.batch idx).gather.advance n).1 } := batch_setBatch_self _
      rw [hself]
      exact GatherBatch.advance_done (h.live idx) hdone
    · exact htook.quiet (quiet_goto (q := .ship idx useZc) rfl rfl (fun _ => rfl) rfl hitem.symm
        hshipping.symm fun _ => hfailed)

theorem quiet_stash (idx : Fin 2) (op : Nat) : Quiet s (s.stashNotif idx op) := by
  refine quiet_goto rfl rfl (fun i => setBatch_view gatherOf ?_ i) rfl rfl rfl id
  rfl

theorem flow_zcResult {op : Nat} {fixed : Bool} {res : Except Nat Nat}
    (h : Flow encode slot need ⟨s, queued⟩) (hplace : s.place = .sentZc idx op fixed) :
    Flow encode slot need ⟨(s.stashNotif idx op).zcResult idx fixed res, queued⟩ := by
  have hstash := h.quiet (quiet_stash idx op)
  have hplace' : (s.stashNotif idx op).place = .sentZc idx op fixed := hplace
  cases res with
  | ok n => exact flow_landed hstash (by rw [hplace']; rfl)
  | error errno =>
    simp only [zcResult]
    split
    · exact hstash.quiet (quiet_goto hplace' rfl (fun _ => rfl) rfl rfl rfl id)
    · split
      · exact hstash.quiet (quiet_goto hplace' rfl (fun _ => rfl) rfl rfl rfl id)
      · exact hstash.fail (by simp) (by rw [hplace']; rfl)

theorem flow_copyResult {res : Except Nat Nat} (h : Flow encode slot need ⟨s, queued⟩)
    (hplace : s.place = .sentCopy idx) : Flow encode slot need ⟨s.copyResult idx res, queued⟩ := by
  cases res with
  | ok n => exact flow_landed h (by rw [hplace]; rfl)
  | error errno => exact h.fail (by simp) (by rw [hplace]; rfl)

theorem flow_step {l l' : Ledger W} {a : SendAction W} (hst : Stages stage encode slot need)
    (h : Flow encode slot need l) (hnotifs : Notifs l.task) (hok : Undisturbed slot l.task a)
    (hs : l.step stage encode a = some l') : Flow encode slot need l' := by
  obtain ⟨s, queued⟩ := l
  obtain ⟨t, ht, rfl⟩ := Option.map_eq_some_iff.1 hs
  replace ht : Stream.step stage s a = some t := ht
  replace hnotifs : Notifs s := hnotifs
  replace hok : Undisturbed slot s a := hok
  cases stepped ht with
  | push w => exact flow_push h hok
  | close => exact h.quiet (quiet_goto rfl rfl (fun _ => rfl) rfl rfl rfl id)
  | store addr byte => exact flow_store hst h hok.1 hok.2
  | notify op copied => exact h.quiet (quiet_goto rfl rfl (fun _ => rfl) rfl rfl rfl id)
  | next hplace hnext => exact h.quiet (quiet_next hplace hnext)
  | acquire hplace => exact h.quiet (quiet_acquire hplace)
  | choose hplace =>
    obtain ⟨-, hidle, hroom⟩ := hnotifs.at_place hplace
    exact flow_choose hst h hplace hidle hroom
  | reap hplace => exact h.quiet (quiet_reap hplace)
  | @await idx op after hplace harrived =>
    refine h.quiet (quiet_goto (q := .reap idx after) hplace rfl (fun _ => rfl) rfl ?_ rfl id)
    cases after <;> rfl
  | ship hplace => exact h.quiet (quiet_ship hplace)
  | drain hplace => exact h.quiet (quiet_drain hplace)
  | refuse errno hplace => exact h.fail (by simp) (by rw [hplace]; rfl)
  | sentZc res hplace => exact flow_zcResult h hplace
  | sentCopy res hplace => exact flow_copyResult h hplace

theorem start_flow (sqsize iovsPerItem : Nat) (poolArena : Option (Nat × Nat)) (heap : Fin 2 → Nat)
    (zcMinAvg : Nat) (sendZc : Bool) (m : Memory) :
    Flow encode slot need ⟨start (StreamSender.new sqsize need iovsPerItem poolArena heap zcMinAvg) sendZc
      m, []⟩ := by
  have hnew := new_batch sqsize need iovsPerItem poolArena heap zcMinAvg
  refine ⟨fun i => (hnew i).2.2, fun w hw => ?_, fun h => absurd rfl h, fun i => ?_, fun _ => rfl⟩
  · cases hw
  · exact (hnew i).1.live.trans_le (Nat.zero_le _)

/-- What every run keeps in which the others leave the sender's memory alone. -/
theorem flow_run {l : Ledger W} (hst : Stages stage encode slot need) (sqsize iovsPerItem : Nat)
    (poolArena : Option (Nat × Nat)) (heap : Fin 2 → Nat) (zcMinAvg : Nat) (sendZc : Bool) (m : Memory)
    {as : List (SendAction W)}
    (hok : StepsOk (Ledger.step stage encode) (fun l => Undisturbed slot l.task)
      ⟨start (StreamSender.new sqsize need iovsPerItem poolArena heap zcMinAvg) sendZc m, []⟩ as)
    (hrun : runFrom (Ledger.step stage encode)
      ⟨start (StreamSender.new sqsize need iovsPerItem poolArena heap zcMinAvg) sendZc m, []⟩ as =
        some l) :
    Flow encode slot need l := by
  have hnew := new_batch sqsize need iovsPerItem poolArena heap zcMinAvg
  refine (@runFrom_invariant_of _ _ (Ledger.step stage encode)
    (fun l => Flow encode slot need l ∧ Notifs l.task) (fun l => Undisturbed slot l.task) ?_ as _ _
    ⟨start_flow sqsize iovsPerItem poolArena heap zcMinAvg sendZc m, ?_⟩ hok hrun).1
  · rintro l a l' ⟨hflow, hnotifs⟩ hok hs
    obtain ⟨t, ht, rfl⟩ := Option.map_eq_some_iff.1 hs
    exact ⟨flow_step hst hflow hnotifs hok hs, notifs_step hnotifs ht⟩
  · exact start_notifs _ (fun i => (hnew i).1) rfl sendZc m

end Ioutgt.Stream
