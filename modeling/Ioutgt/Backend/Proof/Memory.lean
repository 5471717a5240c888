import Ioutgt.Backend.Proof.Store
import Ioutgt.Backend.Memory
import Ioutgt.Lib.Effect

/-!
# A memory namespace is one flat array

The chunks one after the other are the array; a copy into a chunk is a copy into the array at the
chunk's offset.

* `contents_set`, `contents_slice`: one chunk;
* `forEachChunk_spec`: the loop over the chunks, for anything that one round carries on; by induction
  on the fuel, which bounds the bytes left;
* `read_spec`, `write_spec`, `writeZeroes_spec`: the operations on one buffer;
* `readSegs_spec`, `writeSegs_spec`: on segments, by induction along them; all but the last end on a
  block boundary, so the running block number stays exact.
-/

namespace Ioutgt.Backend

open Lib Ioutgt.Core

/-! ## Chunks -/

def content (chunk : Chunk) : List UInt8 := (chunk.getD (Buf.zero chunkSize)).bytes

def contents {n : Nat} (chunks : Vector Chunk n) : List UInt8 :=
  (chunks.toList.map content).flatten

section Contents

variable {n i : Nat} {chunks : Vector Chunk n}

@[simp] theorem content_length (chunk : Chunk) : (content chunk).length = chunkSize :=
  (chunk.getD _).size

theorem contents_length (chunks : Vector Chunk n) : (contents chunks).length = n * chunkSize := by
  have hconst : List.length ∘ content = fun _ => chunkSize := funext content_length
  rw [contents, List.length_flatten, List.map_map, hconst, List.map_const',
    List.sum_replicate_nat, Vector.length_toList]

theorem content_mem_length (chunks : Vector Chunk n) :
    ∀ c ∈ chunks.toList.map content, c.length = chunkSize := by
  intro c hc
  obtain ⟨chunk, -, rfl⟩ := List.mem_map.1 hc
  exact content_length chunk

theorem getElem?_map_content (hi : i < n) :
    (chunks.toList.map content)[i]? = some (content chunks[i]) := by
  rw [List.getElem?_map, List.getElem?_eq_getElem (by simpa using hi), Vector.getElem_toList]
  rfl

theorem contents_set {chunk : Chunk} {off : Nat} {src : List UInt8} (hi : i < n)
    (hfit : off + src.length ≤ chunkSize) (h : content chunk = blit (content chunks[i]) off src) :
    contents (chunks.set i chunk) = blit (contents chunks) (i * chunkSize + off) src := by
  unfold contents
  rw [Vector.toList_set, List.map_set, h,
    blit_flatten (content_mem_length chunks) (getElem?_map_content hi) hfit]

theorem contents_slice {off len : Nat} (hi : i < n) (hfit : off + len ≤ chunkSize) :
    slice (contents chunks) (i * chunkSize + off) len = slice (content chunks[i]) off len := by
  have hchunk := slice_flatten (content_mem_length chunks) i
  rw [List.getD_eq_getElem?_getD, getElem?_map_content hi, Option.getD_some] at hchunk
  rw [← hchunk, slice_slice hfit, Nat.mul_comm]
  rfl

end Contents

/-! ## The loop over the chunks -/

section Loop

variable {σ : Type} {n offset len : Nat}
  {f : σ → Chunk → Nat → Nat → Nat → Checked Empty (Except BackendError Unit × σ × Chunk)}

/-- The rounds carry `Inv` from one prefix of the range to the next: then the loop ends well, with
`Inv` of the whole range. -/
theorem forEachChunk_spec (Inv : Nat → σ → Vector Chunk n → Prop)
    (hend : offset + len ≤ n * chunkSize) (hsize : offset + len < 2 ^ 64)
    (round : ∀ {done take inChunk i : Nat} {s : σ} {chunks : Vector Chunk n} (hi : i < n),
      i * chunkSize + inChunk = offset + done → inChunk + take ≤ chunkSize → done + take ≤ len →
      Inv done s chunks → ∃ s' chunk, f s chunks[i] inChunk take done = .ok (.ok (), s', chunk) ∧
        Inv (done + take) s' (chunks.set i chunk)) :
    ∀ (fuel : Nat) {remaining pos done : Nat} {s : σ} {chunks : Vector Chunk n}, remaining ≤ fuel →
      pos = offset + done → done + remaining = len → Inv done s chunks →
      ∃ s' chunks', forEachChunk f fuel remaining pos done s chunks = .ok (.ok (), s', chunks') ∧
        Inv len s' chunks'
  | _, 0, _, done, s, chunks, _, _, hlen, hinv => by
    obtain rfl : done = len := hlen
    exact ⟨s, chunks, by rw [forEachChunk], hinv⟩
  | 0, _ + 1, _, _, _, _, hf, _, _, _ => absurd hf (by omega)
  | fuel + 1, remaining + 1, pos, done, s, chunks, hf, hpos, hlen, hinv => by
    obtain ⟨hsplit, hin⟩ := Memory.chunk_split pos
    have htake : Nat.min (remaining + 1) (chunkSize - (pos &&& (chunkSize - 1))) ≤ remaining + 1 :=
      Nat.min_le_left ..
    have hroom : Nat.min (remaining + 1) (chunkSize - (pos &&& (chunkSize - 1)))
        ≤ chunkSize - (pos &&& (chunkSize - 1)) := Nat.min_le_right ..
    have hone : 1 ≤ Nat.min (remaining + 1) (chunkSize - (pos &&& (chunkSize - 1))) :=
      Nat.le_min.2 ⟨by omega, by omega⟩
    have hi : pos >>> chunkShift < n := by
      have hlt : (pos >>> chunkShift) * chunkSize < n * chunkSize := by omega
      exact Nat.lt_of_mul_lt_mul_right hlt
    unfold forEachChunk
    dsimp only
    generalize Nat.min (remaining + 1) (chunkSize - (pos &&& (chunkSize - 1))) = take at *
    obtain ⟨s', chunk, hf', hinv'⟩ := @round done take (pos &&& (chunkSize - 1)) (pos >>> chunkShift)
      s chunks hi (by omega) (by omega) (by omega) hinv
    rw [dif_pos hi, hf', Checked.bind_ok]
    dsimp only
    rw [Checked.add_ok (by omega), Checked.bind_ok, Checked.add_ok (by omega), Checked.bind_ok,
      Checked.sub_ok htake, Checked.bind_ok]
    exact forEachChunk_spec Inv hend hsize round fuel (by omega) (by omega) (by omega) hinv'

/-- A loop whose rounds copy the parts of `src` into the chunks copies `src` into the array. -/
theorem forEachChunk_copies {src : List UInt8}
    {f : Unit → Chunk → Nat → Nat → Nat → Checked Empty (Except BackendError Unit × Unit × Chunk)}
    (chunks : Vector Chunk n) (hend : offset + src.length ≤ n * chunkSize)
    (hsize : offset + src.length < 2 ^ 64)
    (round : ∀ {done take inChunk : Nat} (chunk : Chunk), inChunk + take ≤ chunkSize →
      done + take ≤ src.length → ∃ chunk', f () chunk inChunk take done = .ok (.ok (), (), chunk') ∧
        content chunk' = blit (content chunk) inChunk (slice src done take)) :
    ∃ chunks', forEachChunk f src.length src.length offset 0 () chunks = .ok (.ok (), (), chunks') ∧
      contents chunks' = blit (contents chunks) offset src := by
  obtain ⟨_, chunks', hloop, hall⟩ := @forEachChunk_spec Unit n offset src.length f
    (fun done _ cs => contents cs = blit (contents chunks) offset (src.take done)) hend hsize
    (by
      intro done take inChunk i _ cs hi hpos hfit hdone hinv
      obtain ⟨chunk', hf, hcontent⟩ := @round done take inChunk cs[i] hfit hdone
      refine ⟨(), chunk', hf, ?_⟩
      have hlen : (slice src done take).length = take := by rw [slice_length]; omega
      have hdonelen : (src.take done).length = done := by rw [List.length_take]; omega
      rw [contents_set hi (by omega) hcontent, hinv, hpos]
      have hjoin := @blit_blit offset _ (contents chunks) (src.take done) (slice src done take)
        (by rw [contents_length]; omega)
      rw [hdonelen] at hjoin
      rw [hjoin, slice, ← List.take_add])
    src.length _ offset 0 () chunks (Nat.le_refl _) rfl (Nat.zero_add _)
    (by rw [List.take_zero, blit_nil])
  rw [List.take_length] at hall
  exact ⟨chunks', hloop, hall⟩

end Loop

/-! ## Operations on one buffer -/

theorem copyFrom_ok {src : List UInt8} {off len : Nat} (h : off + len ≤ src.length) :
    copyFrom src off len = .ok (slice src off len) := by
  rw [copyFrom, Checked.require_ok _ h]
  rfl

theorem copyInto_ok {dst src : List UInt8} {off : Nat} (h : off + src.length ≤ dst.length) :
    copyInto dst off src = .ok (blit dst off src) := by
  rw [copyInto, Checked.require_ok _ h]
  rfl

theorem copyIntoChunk_ok (data : Buf chunkSize) {off : Nat} {src : List UInt8}
    (h : off + src.length ≤ chunkSize) :
    ∃ data', copyIntoChunk data off src = .ok data' ∧ data'.bytes = blit data.bytes off src := by
  have hlen : (blit data.bytes off src).length = chunkSize := by
    rw [blit_length (by rw [data.size]; exact h), data.size]
  have hwrite : data.write off src = some ⟨blit data.bytes off src, hlen⟩ :=
    Buf.write_eq_some.2 ⟨h, rfl⟩
  exact ⟨⟨_, hlen⟩, by rw [copyIntoChunk, hwrite], rfl⟩

namespace MemoryBackend

section Closures

variable {buf : List UInt8} {inChunk take bufOff : Nat}

theorem readChunk_ok (chunk : Chunk) (hfit : inChunk + take ≤ chunkSize)
    (hbuf : bufOff + take ≤ buf.length) : readChunk buf chunk inChunk take bufOff =
      .ok (.ok (), blit buf bufOff (slice (content chunk) inChunk take), chunk) := by
  have hlen : (slice (content chunk) inChunk take).length = take := by
    rw [slice_length, content_length]
    omega
  have hcopy : copyInto buf bufOff (slice (content chunk) inChunk take) = .ok _ :=
    copyInto_ok (by rw [hlen]; exact hbuf)
  cases chunk with
  | none =>
    have hzero : slice (content none) inChunk take = List.replicate take 0 := by
      simp only [content, Option.getD_none, Buf.zero, slice, List.drop_replicate,
        List.take_replicate, Nat.min_eq_left (show take ≤ chunkSize - inChunk by omega)]
    rw [hzero] at hcopy ⊢
    unfold readChunk
    rw [hcopy]
    rfl
  | some data =>
    have hfrom : copyFrom data.bytes inChunk take = .ok (slice (content (some data)) inChunk take) :=
      copyFrom_ok (by rw [data.size]; exact hfit)
    unfold readChunk
    dsimp only
    rw [hfrom, Checked.bind_ok, hcopy]
    rfl

theorem writeChunk_ok (chunk : Chunk) (hfit : inChunk + take ≤ chunkSize)
    (hbuf : bufOff + take ≤ buf.length) : ∃ chunk',
      writeChunk buf () chunk inChunk take bufOff = .ok (.ok (), (), chunk') ∧
        content chunk' = blit (content chunk) inChunk (slice buf bufOff take) := by
  have hlen : (slice buf bufOff take).length = take := by
    rw [slice_length]
    omega
  obtain ⟨data, hdata, hbytes⟩ := @copyIntoChunk_ok (chunk.getD (Buf.zero chunkSize)) inChunk
    (slice buf bufOff take) (by rw [hlen]; exact hfit)
  refine ⟨some data, ?_, hbytes⟩
  unfold writeChunk
  dsimp only
  rw [copyFrom_ok hbuf, Checked.bind_ok, hdata]
  rfl

theorem zeroChunk_ok (chunk : Chunk) (hfit : inChunk + take ≤ chunkSize) : ∃ chunk',
      zeroChunk () chunk inChunk take bufOff = .ok (.ok (), (), chunk') ∧
        content chunk' = blit (content chunk) inChunk (List.replicate take 0) := by
  cases chunk with
  | none => exact ⟨none, rfl, (blit_replicate hfit).symm⟩
  | some data =>
    obtain ⟨data', hdata, hbytes⟩ := @copyIntoChunk_ok data inChunk
      (List.replicate take 0) (by rw [List.length_replicate]; exact hfit)
    refine ⟨some data', ?_, hbytes⟩
    unfold zeroChunk
    dsimp only
    rw [hdata]
    rfl

end Closures

variable (m : MemoryBackend) {slba : Nat}

def bytes : List UInt8 := (contents m.chunks).take (m.nrBlocks * 2 ^ m.blockShift)

theorem chunks_cover :
    m.nrBlocks * 2 ^ m.blockShift ≤ chunkCount (m.nrBlocks <<< m.blockShift) * chunkSize := by
  rw [← Nat.shiftLeft_eq]
  have hdiv := Nat.div_add_mod (m.nrBlocks <<< m.blockShift + chunkSize - 1) chunkSize
  have hmod := Nat.mod_lt (m.nrBlocks <<< m.blockShift + chunkSize - 1) (show 0 < chunkSize by decide)
  rw [Nat.mul_comm] at hdiv
  unfold chunkCount
  omega

theorem bytes_length : m.bytes.length = m.nrBlocks * 2 ^ m.blockShift := by
  have := m.chunks_cover
  rw [bytes, List.length_take, contents_length]
  omega

theorem size_lt : m.nrBlocks * 2 ^ m.blockShift < 2 ^ 64 := by
  rw [← Nat.shiftLeft_eq]
  exact m.bytes_lt

theorem checkRange_ok {len : Nat}
    (h : slba * 2 ^ m.blockShift + len ≤ m.nrBlocks * 2 ^ m.blockShift) :
    checkRange m.nrBlocks slba (len >>> m.blockShift) = .ok () := by
  have hpos : 0 < 2 ^ m.blockShift := Nat.two_pow_pos _
  have hblocks : slba + len >>> m.blockShift ≤ m.nrBlocks := by
    refine Nat.le_of_mul_le_mul_right ?_ hpos
    rw [Nat.add_mul, Nat.shiftRight_eq_div_pow]
    exact Nat.le_trans (Nat.add_le_add_left (Nat.div_mul_le_self ..) _) h
  have hnr : m.nrBlocks ≤ m.nrBlocks * 2 ^ m.blockShift := Nat.le_mul_of_pos_right _ hpos
  have := m.size_lt
  rw [checkRange, if_pos ⟨by omega, hblocks⟩]

theorem offset_ok {n : Nat} (h : n * 2 ^ m.blockShift ≤ m.nrBlocks * 2 ^ m.blockShift) :
    (Checked.shl 64 n m.blockShift : Checked Empty Nat) = .ok (n * 2 ^ m.blockShift) :=
  Checked.shl_ok m.blockShift_lt (Nat.lt_of_le_of_lt h m.size_lt)

theorem read_spec {buf : List UInt8}
    (h : slba * 2 ^ m.blockShift + buf.length ≤ m.nrBlocks * 2 ^ m.blockShift) :
    m.read slba buf = .ok (.ok (), slice m.bytes (slba * 2 ^ m.blockShift) buf.length) := by
  have hcover := m.chunks_cover
  have hlt := m.size_lt
  obtain ⟨buf', _, hloop, -, hbuf⟩ := @forEachChunk_spec (List UInt8) _ (slba * 2 ^ m.blockShift)
    buf.length readChunk (fun done buf' chunks => chunks = m.chunks ∧
      buf' = blit buf 0 (slice (contents m.chunks) (slba * 2 ^ m.blockShift) done))
    (by omega) (by omega)
    (by
      rintro done take inChunk i buf' _ hi hpos hfit hdone ⟨rfl, rfl⟩
      have hlen : ∀ k l, k + l ≤ m.nrBlocks * 2 ^ m.blockShift →
          (slice (contents m.chunks) k l).length = l := by
        intro k l hkl
        rw [slice_length, contents_length]
        omega
      have hjoin := @blit_blit 0 _ buf (slice (contents m.chunks) (slba * 2 ^ m.blockShift) done)
        (slice (contents m.chunks) (slba * 2 ^ m.blockShift + done) take) (Nat.zero_le _)
      rw [hlen _ _ (by omega), Nat.zero_add] at hjoin
      refine ⟨_, m.chunks[i], ?_, Vector.set_getElem_self .., rfl⟩
      rw [readChunk_ok _ hfit, ← contents_slice hi hfit, hpos, hjoin, ← slice_add]
      rw [blit_length (by rw [hlen _ _ (by omega)]; omega)]
      exact hdone)
    buf.length _ (slba * 2 ^ m.blockShift) 0 buf m.chunks (Nat.le_refl _) rfl (Nat.zero_add _)
    ⟨rfl, by rw [slice, List.take_zero, blit_nil]⟩
  unfold read
  rw [m.checkRange_ok h]
  dsimp only
  rw [m.offset_ok (by omega), Checked.bind_ok, hloop, Checked.bind_ok, hbuf, blit_all, bytes,
    slice_take h]
  · rfl
  · rw [slice_length, contents_length]
    omega

/-- `m` is a store of this geometry that holds `flat`. -/
structure Stores (m : MemoryBackend) (blockShift nrBlocks : Nat) (flat : List UInt8) : Prop where
  blockShift_eq : m.blockShift = blockShift
  nrBlocks_eq : m.nrBlocks = nrBlocks
  bytes_eq : m.bytes = flat

theorem stores_of_copied {src : List UInt8} {off : Nat}
    {chunks : Vector Chunk (chunkCount (m.nrBlocks <<< m.blockShift))}
    (h : off + src.length ≤ m.nrBlocks * 2 ^ m.blockShift)
    (hchunks : contents chunks = blit (contents m.chunks) off src) :
    Stores { m with chunks := chunks } m.blockShift m.nrBlocks (blit m.bytes off src) := by
  refine ⟨rfl, rfl, ?_⟩
  have hcover := m.chunks_cover
  rw [bytes, bytes, hchunks, blit_take h (by rw [contents_length]; exact hcover)]

theorem write_spec {buf : List UInt8}
    (h : slba * 2 ^ m.blockShift + buf.length ≤ m.nrBlocks * 2 ^ m.blockShift) :
    ∃ m', m.write slba buf = .ok (.ok (), m') ∧
      Stores m' m.blockShift m.nrBlocks (blit m.bytes (slba * 2 ^ m.blockShift) buf) := by
  have hcover := m.chunks_cover
  have hlt := m.size_lt
  obtain ⟨chunks, hloop, hchunks⟩ := forEachChunk_copies (f := writeChunk buf) m.chunks
    (Nat.le_trans h hcover) (Nat.lt_of_le_of_lt h hlt) writeChunk_ok
  refine ⟨{ m with chunks := chunks }, ?_, m.stores_of_copied h hchunks⟩
  unfold write
  rw [m.checkRange_ok h]
  dsimp only
  rw [m.offset_ok (by omega), Checked.bind_ok, hloop]
  rfl

theorem writeZeroes_spec {nlb : Nat} (h : slba + nlb ≤ m.nrBlocks) :
    ∃ m', m.writeZeroes ⟨slba, nlb⟩ = .ok (.ok (), m') ∧
      Stores m' m.blockShift m.nrBlocks (blit m.bytes (slba * 2 ^ m.blockShift)
        (List.replicate (nlb * 2 ^ m.blockShift) 0)) := by
  have hcover := m.chunks_cover
  have hlt := m.size_lt
  have hbytes : slba * 2 ^ m.blockShift + nlb * 2 ^ m.blockShift ≤
      m.nrBlocks * 2 ^ m.blockShift := by
    rw [← Nat.add_mul]
    exact Nat.mul_le_mul_right _ h
  have hlen : (List.replicate (nlb * 2 ^ m.blockShift) (0 : UInt8)).length =
      nlb * 2 ^ m.blockShift := List.length_replicate
  obtain ⟨chunks, hloop, hchunks⟩ := @forEachChunk_copies _ (slba * 2 ^ m.blockShift)
    (List.replicate (nlb * 2 ^ m.blockShift) 0) zeroChunk m.chunks (by rw [hlen]; omega)
    (by rw [hlen]; omega) (by
      intro done take inChunk chunk hfit hdone
      rw [hlen] at hdone
      have hslice : slice (List.replicate (nlb * 2 ^ m.blockShift) (0 : UInt8)) done take =
          List.replicate take 0 := by
        simp only [slice, List.drop_replicate, List.take_replicate,
          Nat.min_eq_left (show take ≤ nlb * 2 ^ m.blockShift - done by omega)]
      rw [hslice]
      exact zeroChunk_ok chunk hfit)
  rw [hlen] at hloop
  refine ⟨{ m with chunks := chunks }, ?_, m.stores_of_copied (by rw [hlen]; exact hbytes) hchunks⟩
  have hnr : m.nrBlocks ≤ m.nrBlocks * 2 ^ m.blockShift :=
    Nat.le_mul_of_pos_right _ (Nat.two_pow_pos _)
  have hcheck : checkRange m.nrBlocks slba nlb = .ok () := if_pos ⟨by omega, h⟩
  unfold writeZeroes
  dsimp only
  rw [hcheck]
  dsimp only
  rw [m.offset_ok (by omega), Checked.bind_ok, m.offset_ok (by omega), Checked.bind_ok, hloop]
  rfl

/-! ## Segments -/

section Segs

variable {remaining cur : Nat} {seg : List UInt8} {segs : List (List UInt8)}

/-- The block number after a segment, which does not overflow; and if the segment is not the last,
it is that of the byte the next one starts with. -/
theorem next_block (halign : ∀ s ∈ (seg :: segs).dropLast, 2 ^ m.blockShift ∣ s.length)
    (hrem : 2 ^ m.blockShift ∣ remaining)
    (hend : cur * 2 ^ m.blockShift + remaining ≤ m.nrBlocks * 2 ^ m.blockShift) :
    (Checked.add 64 cur (min remaining seg.length >>> m.blockShift) : Checked Empty Nat) =
        .ok (cur + min remaining seg.length >>> m.blockShift) ∧
      (segs ≠ [] → 2 ^ m.blockShift ∣ remaining - min remaining seg.length ∧
        (cur + min remaining seg.length >>> m.blockShift) * 2 ^ m.blockShift =
          cur * 2 ^ m.blockShift + min remaining seg.length) := by
  have hpos : 0 < 2 ^ m.blockShift := Nat.two_pow_pos _
  have hlt := m.size_lt
  have hle : min remaining seg.length ≤ remaining := Nat.min_le_left ..
  have hfloor := Nat.div_mul_le_self (min remaining seg.length) (2 ^ m.blockShift)
  rw [Nat.shiftRight_eq_div_pow]
  refine ⟨Checked.add_ok ?_, fun hne => ?_⟩
  · have hnext : cur + min remaining seg.length / 2 ^ m.blockShift ≤
        (cur + min remaining seg.length / 2 ^ m.blockShift) * 2 ^ m.blockShift :=
      Nat.le_mul_of_pos_right _ hpos
    rw [Nat.add_mul] at hnext
    omega
  · have hseg : 2 ^ m.blockShift ∣ seg.length := by
      refine halign seg ?_
      rw [List.dropLast_cons_of_ne_nil hne]
      exact List.mem_cons_self ..
    have hdvd : 2 ^ m.blockShift ∣ min remaining seg.length := by
      rcases Nat.le_total remaining seg.length with h | h
      · rwa [Nat.min_eq_left h]
      · rwa [Nat.min_eq_right h]
    exact ⟨Nat.dvd_sub hrem hdvd, by rw [Nat.add_mul, Nat.div_mul_cancel hdvd]⟩

theorem dropLast_of_cons {α : Type} {P : α → Prop} {a : α} {l : List α}
    (h : ∀ x ∈ (a :: l).dropLast, P x) : ∀ x ∈ l.dropLast, P x := by
  intro x hx
  cases l with
  | nil => cases hx
  | cons b l => exact h x (List.mem_cons_of_mem _ hx)

theorem readSegs_spec : ∀ (segs : List (List UInt8)) {remaining cur : Nat},
    (∀ seg ∈ segs.dropLast, 2 ^ m.blockShift ∣ seg.length) → 2 ^ m.blockShift ∣ remaining →
    cur * 2 ^ m.blockShift + remaining ≤ m.nrBlocks * 2 ^ m.blockShift →
    Core.Backend.readSegs m.blockShift m.read remaining cur segs = .ok (.ok (),
      (Lib.writeSegs segs 0 (slice m.bytes (cur * 2 ^ m.blockShift)
        (min remaining segs.flatten.length))).1)
  | [], _, _, _, _, _ => rfl
  | seg :: segs, remaining, cur, halign, hrem, hend => by
    unfold Core.Backend.readSegs
    split
    · rename_i hzero
      rw [hzero, Nat.zero_min, slice, List.take_zero, writeSegs_nil]
    · have hlen : (seg.take (min remaining seg.length)).length = min remaining seg.length := by
        rw [List.length_take]
        omega
      have hread : m.read cur (seg.take (min remaining seg.length)) = .ok (.ok (), _) :=
        m.read_spec (by rw [hlen]; omega)
      obtain ⟨hadd, hnext⟩ := m.next_block halign hrem hend
      -- nothing is read for the segments after the last
      have hrest : Core.Backend.readSegs m.blockShift m.read (remaining - min remaining seg.length)
          (cur + min remaining seg.length >>> m.blockShift) segs = .ok (.ok (),
            (Lib.writeSegs segs 0 (slice m.bytes (cur * 2 ^ m.blockShift + min remaining seg.length)
              (min (remaining - min remaining seg.length) segs.flatten.length))).1) := by
        by_cases hne : segs = []
        · subst hne
          rfl
        · obtain ⟨hdvd, hcur⟩ := hnext hne
          rw [readSegs_spec segs (dropLast_of_cons halign) hdvd (by omega), hcur]
      have hflat : (seg :: segs).flatten.length = seg.length + segs.flatten.length := by
        rw [List.flatten_cons, List.length_append]
      have hfirst : min seg.length (min remaining (seg :: segs).flatten.length) =
          min remaining seg.length := by omega
      have hothers : slice m.bytes (cur * 2 ^ m.blockShift + min remaining seg.length)
          (min (remaining - min remaining seg.length) segs.flatten.length) =
          slice m.bytes (cur * 2 ^ m.blockShift + seg.length)
            (min remaining (seg :: segs).flatten.length - seg.length) := by
        rw [hflat]
        rcases Nat.le_total remaining seg.length with h | h
        · rw [Nat.min_eq_left h, Nat.sub_self, Nat.zero_min,
            show min remaining (seg.length + segs.flatten.length) - seg.length = 0 by omega, slice,
            slice, List.take_zero, List.take_zero]
        · rw [Nat.min_eq_right h]
          congr 1
          omega
      have hblit : blit seg 0 (slice m.bytes (cur * 2 ^ m.blockShift) (min remaining seg.length)) =
          slice m.bytes (cur * 2 ^ m.blockShift) (min remaining seg.length) ++
            seg.drop (min remaining seg.length) := by
        have hsrc : (slice m.bytes (cur * 2 ^ m.blockShift) (min remaining seg.length)).length =
            min remaining seg.length := by
          rw [slice_length, m.bytes_length]
          omega
        rw [blit, hsrc, List.take_zero, List.nil_append, Nat.zero_add]
      dsimp only
      rw [hread, Checked.bind_ok]
      dsimp only
      rw [hadd, Checked.bind_ok, Checked.sub_ok (Nat.min_le_left ..), Checked.bind_ok, hrest,
        Checked.bind_ok, writeSegs_cons_zero, hlen, take_slice, hfirst, slice_drop, hblit, hothers]
      rfl

theorem writeSegs_spec {nrBlocks blockShift : Nat} : ∀ (segs : List (List UInt8))
    {remaining cur : Nat} {m : MemoryBackend} {flat : List UInt8}, Stores m blockShift nrBlocks flat →
    (∀ seg ∈ segs.dropLast, 2 ^ blockShift ∣ seg.length) → 2 ^ blockShift ∣ remaining →
    cur * 2 ^ blockShift + remaining ≤ nrBlocks * 2 ^ blockShift →
    ∃ m', Core.Backend.writeSegs blockShift write remaining cur segs m = .ok (.ok (), m') ∧
      Stores m' blockShift nrBlocks (blit flat (cur * 2 ^ blockShift) (segs.flatten.take remaining))
  | [], _, _, m, flat, hm, _, _, _ => ⟨m, rfl, by rwa [List.flatten_nil, List.take_nil, blit_nil]⟩
  | seg :: segs, remaining, cur, m, flat, hm, halign, hrem, hend => by
    unfold Core.Backend.writeSegs
    split
    · rename_i hzero
      exact ⟨m, rfl, by rwa [hzero, List.take_zero, blit_nil]⟩
    · obtain ⟨rfl, rfl, rfl⟩ := hm
      have hlen : (seg.take (min remaining seg.length)).length = min remaining seg.length := by
        rw [List.length_take]
        omega
      obtain ⟨m₁, hwrite, hm₁⟩ : ∃ m', m.write cur (seg.take (min remaining seg.length)) =
          .ok (.ok (), m') ∧ _ := m.write_spec (by rw [hlen]; omega)
      obtain ⟨hadd, hnext⟩ := m.next_block halign hrem hend
      have hflat : (seg :: segs).flatten.take remaining = seg.take (min remaining seg.length) ++
          segs.flatten.take (remaining - min remaining seg.length) := by
        rw [List.flatten_cons, List.take_append, ← List.take_eq_take_min]
        congr 2
        omega
      have hrest : ∃ m', Core.Backend.writeSegs m.blockShift write (remaining - min remaining seg.length)
          (cur + min remaining seg.length >>> m.blockShift) segs m₁ = .ok (.ok (), m') ∧
          Stores m' m.blockShift m.nrBlocks (blit m.bytes (cur * 2 ^ m.blockShift)
            ((seg :: segs).flatten.take remaining)) := by
        rw [hflat, ← blit_blit (by rw [m.bytes_length]; omega), hlen]
        by_cases hne : segs = []
        · subst hne
          refine ⟨m₁, rfl, ?_⟩
          rwa [List.flatten_nil, List.take_nil, blit_nil]
        · obtain ⟨hdvd, hcur⟩ := hnext hne
          rw [← hcur]
          exact writeSegs_spec segs hm₁ (dropLast_of_cons halign) hdvd (by omega)
      obtain ⟨m', hrest, hm'⟩ := hrest
      refine ⟨m', ?_, hm'⟩
      dsimp only
      rw [hwrite, Checked.bind_ok]
      dsimp only
      rw [hadd, Checked.bind_ok, Checked.sub_ok (Nat.min_le_left ..), Checked.bind_ok, hrest]

end Segs

/-! ## Histories -/

theorem bytes_none (hm : m.chunks = Vector.replicate _ none) :
    m.bytes = List.replicate (m.nrBlocks * 2 ^ m.blockShift) 0 := by
  have hcover := m.chunks_cover
  have hzero : content none = List.replicate chunkSize 0 := by
    unfold content
    rw [Option.getD_none, Buf.zero]
  unfold bytes contents
  rw [hm, Vector.toList_replicate, List.map_replicate, hzero, List.flatten_replicate_replicate,
    List.take_replicate, Nat.min_eq_left hcover]

theorem new_spec (sizeBytes : UInt64) {blockShift : UInt8} (hs : blockShift.toNat < 64) :
    ∃ m, new sizeBytes blockShift = .ok m ∧
      Stores m blockShift.toNat (sizeBytes.toNat >>> blockShift.toNat)
        (List.replicate (sizeBytes.toNat >>> blockShift.toNat * 2 ^ blockShift.toNat) 0) :=
  ⟨_, dif_pos hs, rfl, rfl, bytes_none _ rfl⟩

/-- **One operation** does to the store what it does to the array, and gives the same back. -/
theorem apply_flat {m : MemoryBackend} {blockShift nrBlocks : Nat} {flat : List UInt8} {op : MemOp}
    (hm : Stores m blockShift nrBlocks flat) (hop : op.InRange blockShift nrBlocks) :
    ∃ m', m.apply op = .ok ((.ok (), (Flat.apply blockShift flat op).1), m') ∧
      Stores m' blockShift nrBlocks (Flat.apply blockShift flat op).2 := by
  have hbytes : ∀ {slba total}, 2 ^ blockShift ∣ total →
      slba + total / 2 ^ blockShift ≤ nrBlocks →
      slba * 2 ^ blockShift + total ≤ nrBlocks * 2 ^ blockShift := by
    intro slba total hdvd hle
    have := Nat.mul_le_mul_right (2 ^ blockShift) hle
    rwa [Nat.add_mul, Nat.div_mul_cancel hdvd] at this
  cases op with
  | readSegs slba segs total =>
    obtain ⟨halign, hdvd, hle⟩ := hop
    have hend := hbytes hdvd hle
    obtain ⟨rfl, rfl, rfl⟩ := hm
    refine ⟨m, ?_, rfl, rfl, rfl⟩
    unfold apply
    dsimp only
    rw [m.readSegs_spec segs halign hdvd hend]
    rfl
  | writeSegs slba segs total =>
    obtain ⟨halign, hdvd, hle⟩ := hop
    obtain ⟨m', hwrite, hm'⟩ := writeSegs_spec segs hm halign hdvd (hbytes hdvd hle)
    refine ⟨m', ?_, hm'⟩
    unfold apply
    dsimp only
    rw [hm.blockShift_eq, hwrite]
    rfl
  | writeZeroes range =>
    obtain ⟨rfl, rfl, rfl⟩ := hm
    obtain ⟨m', hzero, hm'⟩ := m.writeZeroes_spec hop
    refine ⟨m', ?_, hm'⟩
    unfold apply
    dsimp only
    rw [hzero]
    rfl

theorem history_flat {blockShift nrBlocks : Nat} : ∀ (ops : List MemOp) {m : MemoryBackend}
    {flat : List UInt8}, Stores m blockShift nrBlocks flat →
    (∀ op ∈ ops, op.InRange blockShift nrBlocks) →
    ∃ m', m.history ops = .ok ((Flat.history blockShift flat ops).1.map fun out => (.ok (), out), m') ∧
      Stores m' blockShift nrBlocks (Flat.history blockShift flat ops).2
  | [], m, _, hm, _ => ⟨m, rfl, hm⟩
  | op :: ops, m, flat, hm, hops => by
    obtain ⟨hop, hops⟩ := List.forall_mem_cons.1 hops
    obtain ⟨m₁, happly, hm₁⟩ := apply_flat hm hop
    obtain ⟨m', hrest, hm'⟩ := history_flat ops hm₁ hops
    refine ⟨m', ?_, hm'⟩
    unfold history
    rw [happly, Checked.bind_ok]
    dsimp only
    rw [hrest]
    rfl

/-- **A memory namespace is a flat array.** Whatever its size and block size, any history of
in-range operations succeeds, fills the segments as the same operations on one zeroed array do, and
leaves in the store what they leave in the array. -/
theorem memory_is_flat_array (sizeBytes : UInt64) (blockShift : UInt8)
    (hs : blockShift.toNat < 64) (ops : List MemOp)
    (hops : ∀ op ∈ ops, op.InRange blockShift.toNat (sizeBytes.toNat >>> blockShift.toNat)) :
    ∃ m m' outs, new sizeBytes blockShift = .ok m ∧
      m.history ops = .ok (outs.map fun out => (.ok (), out), m') ∧
      Flat.history blockShift.toNat
        (List.replicate (sizeBytes.toNat >>> blockShift.toNat * 2 ^ blockShift.toNat) 0) ops =
        (outs, m'.bytes) := by
  obtain ⟨m, hnew, hm⟩ := new_spec sizeBytes hs
  obtain ⟨m', hrun, hm'⟩ := history_flat ops hm hops
  exact ⟨m, m', _, hnew, hrun, by rw [hm'.bytes_eq]⟩

/-- Two blocks of two bytes are written from two segments and read back. -/
def twoBlocks (slba : Nat) : List MemOp :=
  [.writeSegs slba [[7, 8], [9, 10]] 4, .readSegs slba [[0, 0], [0, 0]] 4]

theorem twoBlocks_flat (slba : Nat) :
    Flat.history 1 (List.replicate (slba * 2 + 4) 0) (twoBlocks slba)
      = ([[[7, 8], [9, 10]], [[7, 8], [9, 10]]], List.replicate (slba * 2) 0 ++ [7, 8, 9, 10]) := by
  simp [twoBlocks, Flat.history, Flat.apply, blit, slice, Lib.writeSegs]

/-- The first block ends a chunk, and the second begins the next. -/
theorem memory_is_flat_array_seam : ∃ m m' outs, new 2097154 1 = .ok m ∧
    m.history (twoBlocks 1048575) = .ok (outs.map fun out => (.ok (), out), m') ∧
    outs = [[[7, 8], [9, 10]], [[7, 8], [9, 10]]] ∧
    m'.bytes = List.replicate 2097150 0 ++ [7, 8, 9, 10] := by
  obtain ⟨m, m', outs, hnew, hrun, hflat⟩ := memory_is_flat_array 2097154 1 (by decide)
    (twoBlocks 1048575) (by simp [twoBlocks, MemOp.InRange])
  obtain ⟨houts, hbytes⟩ := Prod.mk.inj (hflat.symm.trans (twoBlocks_flat 1048575))
  exact ⟨m, m', outs, hnew, hrun, houts, hbytes⟩

end MemoryBackend

end Ioutgt.Backend
