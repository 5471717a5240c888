import Ioutgt.Backend.Proof.Vectored

/-!
# Walking a scattered slot buffer

Five loops of the sources walk the segments of a slot buffer: `write_at`, `for_each_seg` and
`fill_subsegs` from a logical offset on, `fill_iovecs` and `fill_sges` over a first part.

* `Walks`: pieces that make up a logical range of the segments, and no byte outside them;
* `segment_walks_flat`: each loop is the same operation on the concatenated segments. The entries of
  `fill_sges` have lengths of 32 bits, so for that loop the runs it enters must be shorter than 4 GiB.
-/

namespace Ioutgt.Rdma

open Lib Ioutgt.Core

/-- The entries `fill_sges` writes: the walk of `fill_iovecs`, with every length `as u32`. -/
def ibvSges (segs : List (List UInt8)) (len : Nat) : List Piece :=
  (Backend.fillIovecs 0 len segs).map fun p => { p with len := p.len % 2 ^ 32 }

/-- The pieces are the logical range `[off, off + len)` in order, lie within the segments, and are at
most one for each. -/
structure Walks (segs : List (List UInt8)) (ps : List Piece) (off len : Nat) : Prop where
  bytes : gather segs ps = (segs.flatten.drop off).take len
  entries : ps.length ≤ segs.length
  inside : ∀ p ∈ ps, p.off + p.len ≤ (segs[p.seg]?.getD []).length

variable {segs : List (List UInt8)} {ps : List Piece} {off len : Nat}

theorem Walks.of_covers (hc : Covers (segs.map List.length) ps off len)
    (hlen : ps.length ≤ segs.length) : Walks segs ps off len :=
  ⟨gather_eq ps segs hc, hlen, hc.bounds⟩

theorem fillIovecs_walks (h : len ≤ segs.flatten.length) :
    Walks segs (Backend.fillIovecs 0 len segs) 0 len :=
  .of_covers (Backend.fillIovecs_covers segs [] len h) (Backend.fillIovecs_length segs 0 len)

theorem ibvSges_eq (h : ∀ p ∈ Backend.fillIovecs 0 len segs, p.len < 2 ^ 32) :
    ibvSges segs len = Backend.fillIovecs 0 len segs := by
  refine (List.map_congr_left fun p hp => ?_).trans (List.map_id _)
  rw [Nat.mod_eq_of_lt (h p hp)]
  rfl

/-- **Every walk of a scattered buffer is the walk of its concatenation**, for every range within it:
a write changes exactly the range's bytes, and the pieces of the others are the range. -/
theorem segment_walks_flat (segs : List (List UInt8)) (off len : Nat) (src : List UInt8) :
    (off + src.length ≤ segs.flatten.length →
      ∃ segs', ((SlotData.leased segs).writeAt off src : Checked Empty _) = .ok (.leased segs') ∧
        segs'.flatten = blit segs.flatten off src ∧ segs'.map List.length = segs.map List.length) ∧
    (off + len ≤ segs.flatten.length →
      (SlotData.forEachSeg segs off len).flatten = (segs.flatten.drop off).take len ∧
        (SlotData.forEachSeg segs off len).length ≤ segs.length ∧
        Walks segs (subSegs 0 segs off len) off len) ∧
    (len ≤ segs.flatten.length →
      Walks segs (Backend.fillIovecs 0 len segs) 0 len ∧
        ((∀ p ∈ Backend.fillIovecs 0 len segs, p.len < 2 ^ 32) →
          Walks segs (ibvSges segs len) 0 len)) := by
  refine ⟨fun h => ?_, fun h => ?_, fun h => ⟨fillIovecs_walks h, fun hrun => ?_⟩⟩
  · obtain ⟨hflat, hrest, hlens⟩ := writeSegs_flatten segs off src h
    refine ⟨(writeSegs segs off src).1, ?_, hflat, hlens⟩
    simp only [SlotData.writeAt, Checked.require_ok _ hrest]
    rfl
  · have hlen := subSegs_length segs 0 off len
    have hwalks : Walks segs (subSegs 0 segs off len) off len :=
      .of_covers (by simpa using subSegs_covers segs [] off len h) hlen
    refine ⟨?_, ?_, hwalks⟩
    · rw [SlotData.forEachSeg, ← List.flatMap_def]
      exact hwalks.bytes
    · rwa [SlotData.forEachSeg, List.length_map]
  · rw [ibvSges_eq hrun]
    exact fillIovecs_walks h

theorem segment_walks_flat_seam :
    (∃ segs', ((SlotData.leased [[1, 2], [3, 4]]).writeAt 1 [5, 6] : Checked Empty _) =
      .ok (.leased segs') ∧ segs'.flatten = [1, 5, 6, 4]) ∧
    Walks [[1, 2], [3, 4]] (ibvSges [[1, 2], [3, 4]] 3) 0 3 := by
  obtain ⟨hwrite, -, hfirst⟩ := segment_walks_flat [[1, 2], [3, 4]] 1 3 [5, 6]
  obtain ⟨segs', hok, hflat, -⟩ := hwrite (by decide)
  exact ⟨⟨segs', hok, hflat.trans (by decide)⟩, (hfirst (by decide)).2 (by decide)⟩

/-- A run of 4 GiB has an entry of length 0. -/
theorem long_run_entry_empty : ∃ segs : List (List UInt8),
    2 ^ 32 ≤ segs.flatten.length ∧
      gather segs (ibvSges segs (2 ^ 32)) ≠ (segs.flatten.drop 0).take (2 ^ 32) := by
  obtain ⟨seg, hseg⟩ : ∃ seg : List UInt8, seg.length = 2 ^ 32 :=
    ⟨List.replicate (2 ^ 32) 0, List.length_replicate⟩
  refine ⟨[seg], by simp [hseg], fun h => ?_⟩
  have hlen := congrArg List.length h
  simp [ibvSges, Backend.fillIovecs, gather, hseg] at hlen

end Ioutgt.Rdma
