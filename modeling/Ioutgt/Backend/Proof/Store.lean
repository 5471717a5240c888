import Ioutgt.Backend.Store

/-!
# Discard and write-zeroes stay inside the namespace

A range is checked in blocks and used in bytes; the check is what keeps the shifts exact.

* `Geometry.bytes_le`, `Geometry.shl_ok`: a range that passes the check, in bytes.
* `writeZeroChunks_inside`, `forEachChunk_inside`: the loops, by induction on their fuel; each round
  leaves less to do, further on.
* `discard_inside`, `writeZeroes_inside`: every operation of either command, on any backend.
-/

namespace Ioutgt.Core

open Lib

variable {ε : Type}

theorem checkRange_eq_ok {nrBlocks slba nlb : Nat} {u : Unit}
    (h : checkRange nrBlocks slba nlb = .ok u) : slba + nlb ≤ nrBlocks := by
  unfold checkRange at h
  split at h
  · rename_i hc
    exact hc.2
  · cases h

theorem Geometry.bytes_le (g : Geometry) {slba nlb : Nat} (h : slba + nlb ≤ g.nrBlocks) :
    slba * 2 ^ g.blockShift + nlb * 2 ^ g.blockShift ≤ g.nrBlocks * 2 ^ g.blockShift := by
  rw [← Nat.add_mul]
  exact Nat.mul_le_mul_right _ h

theorem Geometry.shl_ok (g : Geometry) {n : Nat} (h : n ≤ g.nrBlocks) :
    (Checked.shl 64 n g.blockShift : Checked ε Nat) = .ok (n * 2 ^ g.blockShift) := by
  have hs := g.blockShift_le
  refine Checked.shl_ok (by omega) ?_
  exact Nat.lt_of_le_of_lt (Nat.mul_le_mul_right _ h) g.bytes_lt

end Ioutgt.Core

namespace Ioutgt.Backend

open Lib Ioutgt.Core

def StoreOp.Inside (g : Geometry) (op : StoreOp) : Prop :=
  op.span.1 + op.span.2 ≤ g.nrBlocks * 2 ^ g.blockShift

def anyResult (_ : Except BackendError Unit) : Prop := True

variable {g : Geometry}

/-! ## Files and block devices -/

namespace FileStore

/-- What remains is inside the namespace, and a write advances by at most what it was given. -/
theorem writeZeroChunks_inside : ∀ (fuel : Nat) {remaining off : Nat}, remaining ≤ fuel →
    off + remaining ≤ g.nrBlocks * 2 ^ g.blockShift →
    (writeZeroChunks fuel remaining off).wp (StoreOp.Inside g) anyResult
  | _, 0, _, _, _ => by
    unfold writeZeroChunks
    trivial
  | 0, _ + 1, _, hf, _ => absurd hf (by omega)
  | fuel + 1, remaining + 1, off, hf, hb => by
    have hlt := g.bytes_lt
    have hwant : Nat.min (remaining + 1) zeroChunkLen ≤ remaining + 1 := Nat.min_le_left ..
    unfold writeZeroChunks writeAt
    rw [Prog.wp_bind]
    refine Prog.wp_ask.2 ⟨Nat.le_trans (Nat.add_le_add_left hwant off) hb, ?_⟩
    rintro (e | e | ⟨n, hn⟩)
    · trivial
    · trivial
    · dsimp only
      split
      · trivial
      · rename_i hpos
        refine Prog.wp_check (Checked.sub_ok (by omega)) ?_
        refine Prog.wp_check (Checked.add_ok (by omega)) ?_
        exact writeZeroChunks_inside fuel (by omega) (by omega)

theorem zeroRange_inside {off len : Nat} (hb : off + len ≤ g.nrBlocks * 2 ^ g.blockShift) :
    ∀ modes : List Nat, (zeroRange off len modes).wp (StoreOp.Inside g) anyResult
  | [] => writeZeroChunks_inside len (Nat.le_refl _) hb
  | mode :: rest => by
    unfold zeroRange fallocate
    rw [Prog.wp_bind]
    refine Prog.wp_ask.2 ⟨hb, ?_⟩
    rintro (e | e | u)
    · trivial
    · dsimp only
      split
      · exact zeroRange_inside hb rest
      · trivial
    · trivial

theorem writeZeroes_inside (f : FileStore) (range : LbaRange) :
    (f.writeZeroes range).wp (StoreOp.Inside f.geometry) anyResult := by
  unfold writeZeroes
  split
  · trivial
  · rename_i hr
    have hin := checkRange_eq_ok hr
    refine Prog.wp_check (f.geometry.shl_ok (by omega)) ?_
    refine Prog.wp_check (f.geometry.shl_ok (by omega)) ?_
    exact zeroRange_inside (f.geometry.bytes_le hin) _

theorem unmap_inside (f : FileStore) {off len : Nat} {Q : Sys Unit → Prop}
    (hb : off + len ≤ f.geometry.nrBlocks * 2 ^ f.geometry.blockShift) (hQ : ∀ r, Q r) :
    (f.unmap off len).wp (StoreOp.Inside f.geometry) Q := by
  unfold unmap
  split <;> exact ⟨hb, hQ⟩

/-- Each range is checked before its own bytes are touched; the ranges before it stay unmapped if
it is refused. -/
theorem discard_inside (f : FileStore) : ∀ ranges : List LbaRange,
    (f.discard ranges).wp (StoreOp.Inside f.geometry) anyResult
  | [] => trivial
  | range :: rest => by
    unfold discard
    split
    · trivial
    · rename_i hr
      have hin := checkRange_eq_ok hr
      refine Prog.wp_check (f.geometry.shl_ok (by omega)) ?_
      refine Prog.wp_check (f.geometry.shl_ok (by omega)) ?_
      rw [Prog.wp_bind]
      refine f.unmap_inside (f.geometry.bytes_le hin) ?_
      rintro (e | e | u)
      · trivial
      · dsimp only
        split
        · exact f.discard_inside rest
        · trivial
      · exact f.discard_inside rest

end FileStore

/-! ## Memory -/

namespace Memory

theorem chunk_lt {pos : Nat} (h : pos < g.nrBlocks * 2 ^ g.blockShift) :
    pos >>> chunkShift < nrChunks g := by
  have hsize : chunkSize = 2 ^ chunkShift := by decide
  rw [Nat.shiftRight_eq_div_pow, ← hsize, nrChunks, Nat.div_lt_iff_lt_mul (by decide)]
  have hdiv := Nat.div_add_mod (g.nrBlocks * 2 ^ g.blockShift + chunkSize - 1) chunkSize
  have hmod := Nat.mod_lt (g.nrBlocks * 2 ^ g.blockShift + chunkSize - 1)
    (show 0 < chunkSize by decide)
  rw [Nat.mul_comm] at hdiv
  omega

theorem chunk_split (pos : Nat) :
    (pos >>> chunkShift) * chunkSize + (pos &&& (chunkSize - 1)) = pos ∧
      pos &&& (chunkSize - 1) < chunkSize := by
  have hsize : chunkSize = 2 ^ chunkShift := by decide
  rw [hsize, Nat.shiftRight_eq_div_pow, Nat.and_two_pow_sub_one_eq_mod]
  exact ⟨Nat.div_add_mod' .., Nat.mod_lt _ (Nat.two_pow_pos _)⟩

theorem forEachChunk_inside : ∀ (fuel : Nat) {remaining pos : Nat}, remaining ≤ fuel →
    pos + remaining ≤ g.nrBlocks * 2 ^ g.blockShift →
    (forEachChunk g fuel remaining pos).wp (StoreOp.Inside g) anyResult
  | _, 0, _, _, _ => by
    unfold forEachChunk
    trivial
  | 0, _ + 1, _, hf, _ => absurd hf (by omega)
  | fuel + 1, remaining + 1, pos, hf, hb => by
    have hlt := g.bytes_lt
    obtain ⟨hpos, hin⟩ := chunk_split pos
    have htake : Nat.min (remaining + 1) (chunkSize - (pos &&& (chunkSize - 1))) ≤ remaining + 1 :=
      Nat.min_le_left ..
    have hroom : Nat.min (remaining + 1) (chunkSize - (pos &&& (chunkSize - 1)))
        ≤ chunkSize - (pos &&& (chunkSize - 1)) := Nat.min_le_right ..
    -- both sides of the minimum are positive: the loop always advances
    have hone : 1 ≤ Nat.min (remaining + 1) (chunkSize - (pos &&& (chunkSize - 1))) :=
      Nat.le_min.2 ⟨by omega, by omega⟩
    unfold forEachChunk
    dsimp only
    generalize Nat.min (remaining + 1) (chunkSize - (pos &&& (chunkSize - 1))) = take at *
    refine Prog.wp_check (Checked.require_ok _ (chunk_lt (by omega))) ?_
    refine Prog.wp_check (Checked.require_ok _ (by omega)) ?_
    rw [Prog.wp_bind]
    refine Prog.wp_ask.2 ⟨?_, fun _ => ?_⟩
    · show (pos >>> chunkShift) * chunkSize + (pos &&& (chunkSize - 1)) + take ≤ _
      omega
    · refine Prog.wp_check (Checked.add_ok (by omega)) ?_
      refine Prog.wp_check (Checked.sub_ok (by omega)) ?_
      exact forEachChunk_inside fuel (by omega) (by omega)

theorem writeZeroes_inside (range : LbaRange) :
    (writeZeroes g range).wp (StoreOp.Inside g) anyResult := by
  unfold writeZeroes
  split
  · trivial
  · rename_i hr
    have hin := checkRange_eq_ok hr
    refine Prog.wp_check (g.shl_ok (by omega)) ?_
    refine Prog.wp_check (g.shl_ok (by omega)) ?_
    exact forEachChunk_inside _ (Nat.le_refl _) (g.bytes_le hin)

end Memory

/-! ## Any backend -/

namespace AnyBackend

theorem writeZeroes_inside (b : AnyBackend) (range : LbaRange) :
    (b.writeZeroes range).wp (StoreOp.Inside b.geometry) anyResult := by
  cases b with
  | null g => trivial
  | memory g => exact Memory.writeZeroes_inside range
  | file f => exact f.writeZeroes_inside range

theorem discard_inside (b : AnyBackend) (ranges : List LbaRange) :
    (b.discard ranges).wp (StoreOp.Inside b.geometry) anyResult := by
  cases b with
  | null g => trivial
  | memory g => trivial
  | file f => exact f.discard_inside ranges

end AnyBackend

end Ioutgt.Backend
