import Ioutgt.Lib.Bytes

/-!
# Scattered buffers

A buffer made of several segments, addressed by one logical offset that runs through them. The
segments' contents in order are the buffer's contents (`List.flatten`).

* `writeSegs`, `writeSegs_flatten`: a copy that crosses segment boundaries is one `blit` on the
  flattened buffer.
* `blit_flatten`: a copy into one of several chunks of equal length.
* `subSegs`, `subSegs_covers`: the pieces of the segments that cover a logical range.
* `scatter`, `scatter_flatten`: filling the pieces of a range one after the other is one `blit`.
* `advance`, `advance_covers`: the pieces that are left when a first part of them is filled.
* `gather`, `gather_eq`: reading the pieces of a range.
* `takeSegs`, `takeSegs_flatten`: the pieces that make up a first part of the buffer.
-/

namespace Lib

section
variable {α : Type} {a b src : List α} {off : Nat}

/-! ## Copying in -/

/-- Copy `src` in at logical offset `off`; with what did not fit. -/
def writeSegs : List (List α) → Nat → List α → List (List α) × List α
  | [], _, src => ([], src)
  | seg :: segs, off, src =>
    if src.isEmpty then (seg :: segs, [])
    else if off ≥ seg.length then
      let r := writeSegs segs (off - seg.length) src
      (seg :: r.1, r.2)
    else
      let take := min (seg.length - off) src.length
      let r := writeSegs segs 0 (src.drop take)
      (blit seg off (src.take take) :: r.1, r.2)

theorem blit_append_left (h : off + src.length ≤ a.length) :
    blit (a ++ b) off src = blit a off src ++ b := by
  rw [blit, blit, List.take_append_of_le_length (by omega), List.drop_append_of_le_length h]
  simp

theorem blit_append_right (h : a.length ≤ off) :
    blit (a ++ b) off src = a ++ blit b (off - a.length) src := by
  rw [blit, blit, List.take_append, List.take_of_length_le h, List.drop_append,
    List.drop_eq_nil_of_le (by omega)]
  have : off + src.length - a.length = off - a.length + src.length := by omega
  simp [this]

theorem blit_append_across {s t : List α} (h : off + s.length = a.length) :
    blit (a ++ b) off (s ++ t) = blit a off s ++ blit b 0 t := by
  rw [← blit_blit (by simp; omega), blit_append_left (by omega), blit_append_right]
  · rw [blit_length (by omega)]
    congr 2
    omega
  · rw [blit_length (by omega)]
    omega

theorem blit_take {dst : List α} {n : Nat} (h : off + src.length ≤ n) (hn : n ≤ dst.length) :
    (blit dst off src).take n = blit (dst.take n) off src := by
  have hlen : (dst.take n).length = n := by simp [hn]
  rw [← List.take_append_drop n dst, blit_append_left (by omega), List.take_left' hlen,
    List.take_left' (by rw [blit_length (by omega), hlen])]

theorem blit_flatten {k i : Nat} {cs : List (List α)} {c : List α} (h : ∀ c ∈ cs, c.length = k)
    (hi : cs[i]? = some c) (hfit : off + src.length ≤ k) :
    (cs.set i (blit c off src)).flatten = blit cs.flatten (i * k + off) src := by
  induction cs generalizing i with
  | nil => cases hi
  | cons d cs ih =>
    have hd : d.length = k := h d (List.mem_cons_self ..)
    cases i with
    | zero =>
      obtain rfl : d = c := by simpa using hi
      rw [List.set_cons_zero, List.flatten_cons, List.flatten_cons, Nat.zero_mul, Nat.zero_add,
        blit_append_left (by omega)]
    | succ i =>
      have hi' : cs[i]? = some c := by simpa using hi
      rw [List.set_cons_succ, List.flatten_cons, List.flatten_cons,
        ih (fun c hc => h c (List.mem_cons_of_mem _ hc)) hi',
        blit_append_right (by rw [hd, Nat.succ_mul]; omega)]
      congr 2
      rw [hd, Nat.succ_mul]
      omega

theorem writeSegs_nil (segs : List (List α)) (off : Nat) : (writeSegs segs off []).1 = segs := by
  cases segs <;> rfl

theorem writeSegs_cons_zero (seg : List α) (segs : List (List α)) (src : List α) :
    (writeSegs (seg :: segs) 0 src).1 =
      blit seg 0 (src.take seg.length) :: (writeSegs segs 0 (src.drop seg.length)).1 := by
  rw [writeSegs]
  split
  · rename_i he
    obtain rfl : src = [] := by simpa using he
    rw [List.take_nil, List.drop_nil, blit_nil, writeSegs_nil]
  · split
    · rename_i hseg
      obtain rfl : seg = [] := List.eq_nil_of_length_eq_zero (Nat.le_zero.1 hseg)
      rfl
    · have hdrop : src.drop (min seg.length src.length) = src.drop seg.length := by
        rcases Nat.le_total seg.length src.length with h | h
        · rw [Nat.min_eq_left h]
        · rw [Nat.min_eq_right h, List.drop_length, List.drop_eq_nil_of_le h]
      dsimp only
      rw [Nat.sub_zero, hdrop, ← List.take_eq_take_min]

theorem writeSegs_flatten_length (segs : List (List α)) (off : Nat) (src : List α) :
    (writeSegs segs off src).1.flatten.length = segs.flatten.length := by
  fun_induction writeSegs segs off src with
  | case1 => rfl
  | case2 => rfl
  | case3 seg segs off src _ _ r ih =>
    rw [List.flatten_cons, List.flatten_cons, List.length_append, List.length_append, ih]
  | case4 seg segs off src _ hlt take r ih =>
    rw [List.flatten_cons, List.flatten_cons, List.length_append, List.length_append, ih,
      blit_length (by rw [List.length_take]; omega)]

/-- **Copying across segments** is copying into the flattened buffer. -/
theorem writeSegs_flatten :
    ∀ (segs : List (List α)) (off : Nat) (src : List α), off + src.length ≤ segs.flatten.length →
      (writeSegs segs off src).1.flatten = blit segs.flatten off src ∧
        (writeSegs segs off src).2 = [] ∧
        (writeSegs segs off src).1.map List.length = segs.map List.length
  | [], off, src, h => by
    rw [List.flatten_nil, List.length_nil] at h
    have hsrc : src = [] := List.eq_nil_of_length_eq_zero (by omega)
    subst hsrc
    simp [writeSegs, blit]
  | seg :: segs, off, src, h => by
    rw [List.flatten_cons, List.length_append] at h
    unfold writeSegs
    split
    · rename_i he
      have hsrc : src = [] := by simpa using he
      subst hsrc
      simp [blit_nil]
    split
    · rename_i hge
      obtain ⟨h1, h2, h3⟩ := writeSegs_flatten segs (off - seg.length) src (by omega)
      refine ⟨?_, h2, by simp [h3]⟩
      rw [List.flatten_cons, List.flatten_cons, h1, blit_append_right hge]
    · rename_i hlt
      have hlt : off < seg.length := by omega
      by_cases hfit : src.length ≤ seg.length - off
      · -- the copy ends in this segment
        rw [Nat.min_eq_right hfit]
        obtain ⟨h1, h2, h3⟩ := writeSegs_flatten segs 0 (src.drop src.length) (by simp)
        refine ⟨?_, h2, ?_⟩
        · rw [List.flatten_cons, List.flatten_cons, h1, List.take_length, List.drop_length, blit_nil,
            blit_append_left (by omega)]
        · rw [List.map_cons, List.map_cons, h3, List.take_length, blit_length (by omega)]
      · rw [Nat.min_eq_left (by omega)]
        have hlen : (src.take (seg.length - off)).length = seg.length - off := by simp; omega
        obtain ⟨h1, h2, h3⟩ := writeSegs_flatten segs 0 (src.drop (seg.length - off))
          (by rw [List.length_drop]; omega)
        refine ⟨?_, h2, ?_⟩
        · have hsrc : src = src.take (seg.length - off) ++ src.drop (seg.length - off) :=
            (List.take_append_drop _ _).symm
          rw [List.flatten_cons, List.flatten_cons, h1]
          conv_rhs => rw [hsrc]
          rw [blit_append_across (by omega)]
        · simp only [List.map_cons, h3]
          rw [blit_length (by omega)]

/-! ## Pieces of a logical range -/

/-- `len` bytes of segment `seg` from `off` on. -/
structure Piece where
  seg : Nat
  off : Nat
  len : Nat
  deriving DecidableEq, Repr

/-- The pieces, in order, of the segments from number `i` on that cover the logical range
`[off, off + len)`. -/
def subSegs : Nat → List (List α) → Nat → Nat → List Piece
  | _, [], _, _ => []
  | i, seg :: segs, off, len =>
    if len = 0 then []
    else if off ≥ seg.length then subSegs (i + 1) segs (off - seg.length) len
    else
      let take := min (seg.length - off) len
      ⟨i, off, take⟩ :: subSegs (i + 1) segs 0 (len - take)

theorem subSegs_length : ∀ (segs : List (List α)) (i off len : Nat),
    (subSegs i segs off len).length ≤ segs.length
  | [], _, _, _ => Nat.le_refl _
  | seg :: segs, i, off, len => by
    rw [subSegs]
    split
    · exact Nat.zero_le _
    · split
      · exact Nat.le_succ_of_le (subSegs_length segs _ _ _)
      · exact Nat.succ_le_succ (subSegs_length segs _ _ _)

/-- Logical offset at which segment `i` starts. -/
def segStart (lens : List Nat) (i : Nat) : Nat := (lens.take i).sum

/-- The pieces lie end to end over `[off, off + len)` of segments of lengths `lens`. -/
def Covers (lens : List Nat) : List Piece → Nat → Nat → Prop
  | [], _, len => len = 0
  | p :: ps, off, len =>
    (∃ l, lens[p.seg]? = some l ∧ p.off + p.len ≤ l) ∧ segStart lens p.seg + p.off = off ∧
      p.len ≤ len ∧ Covers lens ps (off + p.len) (len - p.len)

theorem segStart_append_length (pre lens : List Nat) : segStart (pre ++ lens) pre.length = pre.sum := by
  simp [segStart]

theorem subSegs_covers :
    ∀ (segs : List (List α)) (pre : List Nat) (off len : Nat), off + len ≤ segs.flatten.length →
      Covers (pre ++ segs.map List.length) (subSegs pre.length segs off len) (pre.sum + off) len
  | [], pre, off, len, h => by
    rw [List.flatten_nil, List.length_nil] at h
    simp only [subSegs, Covers]
    omega
  | seg :: segs, pre, off, len, h => by
    rw [List.flatten_cons, List.length_append] at h
    have hpre : pre ++ (seg :: segs).map List.length
        = (pre ++ [seg.length]) ++ segs.map List.length := by simp
    have hlen : (pre ++ [seg.length]).length = pre.length + 1 := by simp
    have hsum : (pre ++ [seg.length]).sum = pre.sum + seg.length := by simp
    unfold subSegs
    split
    · rename_i h0
      exact h0
    split
    · rename_i hge
      have ih := subSegs_covers segs (pre ++ [seg.length]) (off - seg.length) len (by omega)
      rw [hlen, hsum, ← hpre] at ih
      have hoff : pre.sum + seg.length + (off - seg.length) = pre.sum + off := by omega
      rwa [hoff] at ih
    · rename_i hlt
      have ih := subSegs_covers segs (pre ++ [seg.length]) 0 (len - min (seg.length - off) len)
        (by omega)
      rw [hlen, hsum, ← hpre, Nat.add_zero] at ih
      refine ⟨⟨seg.length, by simp, by dsimp only; omega⟩, ?_, by dsimp only; omega, ?_⟩
      · rw [segStart_append_length]
      · by_cases hfit : len ≤ seg.length - off
        · rw [Nat.min_eq_right hfit, Nat.sub_self] at ih ⊢
          have hnil : subSegs (pre.length + 1) segs 0 0 = [] := by
            cases segs <;> simp [subSegs]
          rw [hnil]
          rfl
        · rw [Nat.min_eq_left (by omega)] at ih ⊢
          have hoff : pre.sum + off + (seg.length - off) = pre.sum + seg.length := by omega
          rwa [hoff]

/-! ## Filling pieces -/

def scatter : List (List α) → List Piece → List α → List (List α)
  | segs, [], _ => segs
  | segs, p :: ps, bs =>
    scatter (segs.modify p.seg (blit · p.off (bs.take p.len))) ps (bs.drop p.len)

def advance : List Piece → Nat → List Piece
  | [], _ => []
  | p :: ps, n =>
    if n = 0 then p :: ps
    else if p.len ≤ n then advance ps (n - p.len)
    else { p with off := p.off + n, len := p.len - n } :: ps

theorem modify_flatten :
    ∀ (segs : List (List α)) (i : Nat) {o l : Nat} {src : List α},
      (segs.map List.length)[i]? = some l → o + src.length ≤ l →
      (segs.modify i (blit · o src)).flatten
          = blit segs.flatten (segStart (segs.map List.length) i + o) src ∧
        (segs.modify i (blit · o src)).map List.length = segs.map List.length
  | [], i, o, l, src, hi, _ => by simp at hi
  | seg :: segs, 0, o, l, src, hi, hl => by
    obtain rfl : seg.length = l := by simpa using hi
    refine ⟨?_, by simp [blit_length hl]⟩
    rw [List.modify_zero_cons, List.flatten_cons, List.flatten_cons, blit_append_left]
    · simp [segStart]
    · simpa [segStart] using hl
  | seg :: segs, i + 1, o, l, src, hi, hl => by
    obtain ⟨h1, h2⟩ := modify_flatten segs i (by simpa using hi) hl
    have hst : segStart ((seg :: segs).map List.length) (i + 1)
        = seg.length + segStart (segs.map List.length) i := by simp [segStart]
    refine ⟨?_, by rw [List.modify_succ_cons, List.map_cons, h2, List.map_cons]⟩
    rw [List.modify_succ_cons, List.flatten_cons, List.flatten_cons, h1, hst,
      blit_append_right (by omega)]
    congr 2
    omega

theorem segStart_add_le : ∀ (lens : List Nat) (i : Nat) {l : Nat}, lens[i]? = some l →
    segStart lens i + l ≤ lens.sum
  | [], _, _, h => by simp at h
  | x :: lens, 0, l, h => by
    obtain rfl : x = l := by simpa using h
    simp [segStart]
  | x :: lens, i + 1, l, h => by
    have ih := segStart_add_le lens i (by simpa using h)
    simp only [segStart, List.take_succ_cons, List.sum_cons] at ih ⊢
    omega

theorem scatter_nil : ∀ (ps : List Piece) (segs : List (List α)), scatter segs ps [] = segs
  | [], _ => rfl
  | p :: ps, segs => by
    have hid : (fun s : List α => blit s p.off []) = id := by
      funext s
      exact blit_nil s p.off
    rw [scatter, List.take_nil, List.drop_nil, hid, List.modify_id, scatter_nil ps segs]

/-- **Filling the pieces of a range** is one copy into the flattened buffer. -/
theorem scatter_flatten :
    ∀ (ps : List Piece) (segs : List (List α)) {off len : Nat} {bs : List α},
      Covers (segs.map List.length) ps off len → bs.length ≤ len → off ≤ segs.flatten.length →
      (scatter segs ps bs).flatten = blit segs.flatten off bs ∧
        (scatter segs ps bs).map List.length = segs.map List.length
  | [], segs, off, len, bs, hc, hb, _ => by
    have hbs : bs = [] := List.eq_nil_of_length_eq_zero (by simp only [Covers] at hc; omega)
    subst hbs
    simp [scatter, blit_nil]
  | p :: ps, segs, off, len, bs, hc, hb, hoff => by
    obtain ⟨⟨l, hl, hpl⟩, hst, hle, hrest⟩ := hc
    have hfit : p.off + (bs.take p.len).length ≤ l := by
      have := List.length_take_le p.len bs
      omega
    obtain ⟨h1, h2⟩ := modify_flatten segs p.seg hl hfit
    rw [hst] at h1
    by_cases hall : bs.length ≤ p.len
    · -- nothing is left for the later pieces
      rw [scatter, List.drop_eq_nil_of_le hall, scatter_nil, h1, h2, List.take_of_length_le hall]
      exact ⟨rfl, rfl⟩
    · have htake : (bs.take p.len).length = p.len := by rw [List.length_take]; omega
      have hlen : (segs.modify p.seg (blit · p.off (bs.take p.len))).flatten.length
          = segs.flatten.length := by
        rw [List.length_flatten, h2, ← List.length_flatten]
      have hend := segStart_add_le _ _ hl
      rw [← List.length_flatten] at hend
      obtain ⟨h3, h4⟩ := scatter_flatten ps (segs.modify p.seg (blit · p.off (bs.take p.len)))
        (by rw [h2]; exact hrest) (by rw [List.length_drop]; omega : (bs.drop p.len).length ≤ _)
        (by rw [hlen]; omega)
      refine ⟨?_, by rw [scatter, h4, h2]⟩
      have hbs : bs = bs.take p.len ++ bs.drop p.len := (List.take_append_drop _ _).symm
      rw [scatter, h3, h1]
      conv_rhs => rw [hbs]
      rw [← blit_blit hoff, htake]

theorem advance_covers {lens : List Nat} :
    ∀ {ps : List Piece} {off len n : Nat}, Covers lens ps off len → n ≤ len →
      Covers lens (advance ps n) (off + n) (len - n)
  | [], off, len, n, hc, hn => by
    simp only [Covers] at hc
    simp only [advance, Covers]
    omega
  | p :: ps, off, len, n, hc, hn => by
    unfold advance
    split
    · rename_i h0
      subst h0
      exact hc
    obtain ⟨⟨l, hl, hpl⟩, hst, hle, hrest⟩ := hc
    split
    · rename_i hp
      have ih := advance_covers hrest (by omega : n - p.len ≤ len - p.len)
      have e1 : off + p.len + (n - p.len) = off + n := by omega
      have e2 : len - p.len - (n - p.len) = len - n := by omega
      rwa [e1, e2] at ih
    · rename_i hp
      refine ⟨⟨l, hl, by dsimp only; omega⟩, by dsimp only; omega, by dsimp only; omega, ?_⟩
      have e1 : off + n + (p.len - n) = off + p.len := by omega
      have e2 : len - n - (p.len - n) = len - p.len := by omega
      simpa only [e1, e2] using hrest

theorem Covers.bounds {segs : List (List α)} :
    ∀ {ps : List Piece} {off len : Nat}, Covers (segs.map List.length) ps off len →
      ∀ p ∈ ps, p.off + p.len ≤ (segs[p.seg]?.getD []).length
  | [], _, _, _, _, hp => absurd hp List.not_mem_nil
  | q :: ps, off, len, hc, p, hp => by
    obtain ⟨⟨l, hl, hle⟩, -, -, hrest⟩ := hc
    rcases List.mem_cons.1 hp with rfl | hp
    · rw [List.getElem?_map, Option.map_eq_some_iff] at hl
      obtain ⟨seg, hseg, rfl⟩ := hl
      rw [hseg]
      exact hle
    · exact hrest.bounds p hp

theorem covers_total {lens : List Nat} :
    ∀ {ps : List Piece} {off len : Nat}, Covers lens ps off len → (ps.map (·.len)).sum = len
  | [], off, len, hc => by
    simp only [Covers] at hc
    simp [hc]
  | p :: ps, off, len, hc => by
    obtain ⟨-, -, hle, hrest⟩ := hc
    have ih := covers_total hrest
    simp only [List.map_cons, List.sum_cons, ih]
    omega

/-- The contents of the pieces, in order. -/
def gather (segs : List (List α)) (ps : List Piece) : List α :=
  ps.flatMap fun p => (((segs[p.seg]?.getD []).drop p.off).take p.len)

theorem segStart_slice :
    ∀ (segs : List (List α)) (i : Nat) {o l n : Nat},
      (segs.map List.length)[i]? = some l → o + n ≤ l →
      (segs.flatten.drop (segStart (segs.map List.length) i + o)).take n
        = ((segs[i]?.getD []).drop o).take n
  | [], i, o, l, n, hi, _ => by simp at hi
  | seg :: segs, 0, o, l, n, hi, hl => by
    obtain rfl : seg.length = l := by simpa using hi
    have hst : segStart ((seg :: segs).map List.length) 0 + o = o := by simp [segStart]
    rw [hst, List.flatten_cons, List.drop_append_of_le_length (by omega),
      List.take_append_of_le_length (by rw [List.length_drop]; omega)]
    rfl
  | seg :: segs, i + 1, o, l, n, hi, hl => by
    have ih := segStart_slice segs i (by simpa using hi) hl
    have hst : segStart ((seg :: segs).map List.length) (i + 1) + o
        = seg.length + (segStart (segs.map List.length) i + o) := by
      simp [segStart, Nat.add_assoc]
    rw [hst, List.flatten_cons, ← List.drop_drop, List.drop_left, ih]
    rfl

/-- **Reading the pieces of a range** reads the range of the flattened buffer. -/
theorem gather_eq :
    ∀ (ps : List Piece) (segs : List (List α)) {off len : Nat},
      Covers (segs.map List.length) ps off len → gather segs ps = (segs.flatten.drop off).take len
  | [], segs, off, len, hc => by
    simp only [Covers] at hc
    simp [gather, hc]
  | p :: ps, segs, off, len, hc => by
    obtain ⟨⟨l, hl, hpl⟩, hst, hle, hrest⟩ := hc
    have ih := gather_eq ps segs hrest
    have hp := segStart_slice segs p.seg hl hpl
    rw [hst] at hp
    have hlen : len = p.len + (len - p.len) := by omega
    have hg : gather segs (p :: ps)
        = ((segs[p.seg]?.getD []).drop p.off).take p.len ++ gather segs ps := rfl
    rw [hg, ← hp, ih, hlen, List.take_add, List.drop_drop]
    congr 3
    omega

/-! ## A first part -/

/-- The pieces of the first `remaining` elements, one from each segment they reach into. -/
def takeSegs : List (List α) → Nat → List (List α)
  | [], _ => []
  | seg :: segs, remaining =>
    if remaining = 0 then []
    else
      let take := min remaining seg.length
      seg.take take :: takeSegs segs (remaining - take)

theorem takeSegs_flatten : ∀ (segs : List (List α)) (n : Nat),
    (takeSegs segs n).flatten = segs.flatten.take n
  | [], n => by simp [takeSegs]
  | seg :: segs, n => by
    unfold takeSegs
    split
    · rename_i hn
      simp [hn]
    · have hrest : n - min n seg.length = n - seg.length := by omega
      rw [List.flatten_cons, List.flatten_cons, takeSegs_flatten segs, hrest, List.take_append,
        ← List.take_eq_take_min]

end

end Lib
