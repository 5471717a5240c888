import Ioutgt.Backend.Proof.Store
import Ioutgt.Backend.Vectored

/-!
# Every byte at its own offset

Whatever the calls are answered, the pieces that are left and the file offset stay in step: the
pieces cover the segments from `done` on, and the next call is at `base + done`.

* `fillIovecs_covers`, `advanceIovecs_eq`: the iovec array;
* `rwvLoop_into`: the loop, for anything a call keeps that the answer allows to advance by what it
  reports; by induction on the fuel, which bounds the bytes left and the flag;
* `written_call`, `read_call`: what a call keeps, for writes and for reads;
* `writeZeroChunks_into`, `zeroRange_into`: the fallback of write-zeroes.
-/

namespace Ioutgt.Backend

open Lib Ioutgt.Core

/-! ## The iovec array -/

theorem fillIovecs_length : ∀ (segs : List (List UInt8)) (i remaining : Nat),
    (fillIovecs i remaining segs).length ≤ segs.length
  | [], _, _ => Nat.le_refl 0
  | seg :: segs, i, remaining => by
    unfold fillIovecs
    split
    · exact Nat.zero_le _
    · exact Nat.succ_le_succ (fillIovecs_length segs _ _)

theorem fillIovecs_covers : ∀ (segs : List (List UInt8)) (before : List Nat) (remaining : Nat),
    remaining ≤ segs.flatten.length →
      Covers (before ++ segs.map List.length) (fillIovecs before.length remaining segs) before.sum
        remaining
  | [], before, remaining, h => by
    rw [List.flatten_nil, List.length_nil] at h
    exact Nat.le_zero.1 h
  | seg :: segs, before, remaining, h => by
    rw [List.flatten_cons, List.length_append] at h
    unfold fillIovecs
    split
    · assumption
    · have hlens : before ++ (seg :: segs).map List.length =
          (before ++ [seg.length]) ++ segs.map List.length := by simp
      have hseg : (before ++ (seg :: segs).map List.length)[before.length]? = some seg.length := by
        simp
      have hstart : segStart (before ++ (seg :: segs).map List.length) before.length = before.sum :=
        segStart_append_length ..
      refine ⟨⟨seg.length, hseg, ?_⟩, hstart, Nat.min_le_left .., ?_⟩
      · rw [Nat.zero_add]
        exact Nat.min_le_right ..
      · dsimp only
        by_cases hfit : remaining ≤ seg.length
        · -- the last iovec: nothing is left for the others
          rw [Nat.min_eq_left hfit, Nat.sub_self]
          cases segs <;> exact rfl
        · rw [Nat.min_eq_right (by omega), hlens]
          have ih := fillIovecs_covers segs (before ++ [seg.length]) (remaining - seg.length)
            (by omega)
          rwa [List.length_append, List.length_singleton, List.sum_append, List.sum_singleton] at ih

theorem advanceIovecs_eq {ε : Type} : ∀ {iovs : List Piece} {n : Nat}, n ≤ iovsLen iovs →
    (advanceIovecs iovs n : Checked ε _) = .ok (advance iovs n)
  | [], 0, _ => rfl
  | _ :: _, 0, _ => by
    rw [advanceIovecs, advance, if_pos rfl]
  | [], n + 1, h => absurd h (by simp [iovsLen])
  | v :: iovs, n + 1, h => by
    rw [iovsLen, List.map_cons, List.sum_cons] at h
    rw [advanceIovecs, advance, if_neg (Nat.succ_ne_zero n)]
    split
    · exact advanceIovecs_eq (by rw [iovsLen]; omega)
    · rfl

theorem Sys.count_le {len n : Nat} {res : Sys { n : Nat // n ≤ len }} (h : res.count = .done n) :
    n ≤ len := by
  rcases res with e | e | m
  · cases h
  · cases h
  · cases h
    exact m.2

/-! ## The loop -/

/-- What holds of the answers before a call: none was a transfer of nothing, and there is fuel for
as many calls as there may be in all. -/
structure Going (total fuel : Nat) (s : IoWorld) : Prop where
  moved : ∀ a ∈ s.answers, a ≠ .done 0
  calls : s.answers.length + fuel ≤ total + 1

/-- What holds of them at any time: nothing follows a transfer of nothing. -/
structure Answered (total : Nat) (s : IoWorld) : Prop where
  last : ∀ a ∈ s.answers.dropLast, a ≠ .done 0
  calls : s.answers.length ≤ total + 1

structure Returned (total : Nat) (Done : Nat → IoWorld → Prop)
    (r : Except BackendError Unit × Bool) (s : IoWorld) : Prop where
  moved : r.1 = .ok () → Done total s
  zero : .done 0 ∈ s.answers → r.1 = .error (.io eio)

namespace FileStore

section Rwv

variable {direct write : Bool} {base total : Nat} {fixed : Option Nat} {lens : List Nat}
  {Done : Nat → IoWorld → Prop}

/-- Every call keeps what is done, and what it reports is done as well. -/
def Advances (write : Bool) (base total : Nat) (fixed : Option Nat) (lens : List Nat)
    (Done : Nat → IoWorld → Prop) : Prop :=
  ∀ {iovs : List Piece} {done : Nat} {dontcache : Bool} {ans s s'}, done ≤ total →
    Covers lens iovs done (total - done) → Done done s →
    VecOp.act (.rw write iovs (base + done) fixed dontcache) ans s s' →
    Done done s' ∧ (∀ n, ans.res.count = .done n → Done (done + n) s') ∧
      s'.answers = s.answers ++ [ans.res.count]

theorem rwvLoop_into (hadv : Advances write base total fixed lens Done)
    (hbase : base + total ≤ 2 ^ 64) : ∀ (fuel : Nat) {dontcache : Bool} {done : Nat}
    {iovs : List Piece} {s : IoWorld}, total - done + dontcache.toNat ≤ fuel → done ≤ total →
    Covers lens iovs done (total - done) → Done done s → Going total fuel s →
    (rwvLoop direct write base total fixed fuel dontcache done iovs).into VecOp.act
      (fun s => (∃ d, Done d s) ∧ Answered total s) (Returned total Done) s
  | fuel, dontcache, done, iovs, s, hfuel, hle, hcov, hdone, hgo => by
    unfold rwvLoop
    split
    · rename_i hall
      have heq : done = total := Nat.le_antisymm hle hall
      exact ⟨fun _ => heq ▸ hdone, fun hzero => absurd rfl (hgo.moved _ hzero)⟩
    · rename_i hmore
      match fuel, hfuel, hgo with
      | 0, hfuel, _ => omega
      | fuel + 1, hfuel, hgo =>
        dsimp only
        rw [Prog.into_bind]
        refine Prog.into_check (Checked.add_ok (by omega)) ?_
        rw [Prog.into_bind]
        refine Prog.into_ask.2 fun ans s' hact => ?_
        obtain ⟨hkept, hmoved, hlog⟩ := hadv hle hcov hdone hact
        have hcalls := hgo.calls
        have hanswered : Answered total s' := by
          refine ⟨?_, ?_⟩ <;> rw [hlog]
          · rw [List.dropLast_concat]
            exact hgo.moved
          · rw [List.length_append, List.length_singleton]
            omega
        -- the answers go on being transfers as long as this one is
        have hnext : ans.res.count ≠ .done 0 → Going total fuel s' := by
          intro hne
          refine ⟨?_, ?_⟩ <;> rw [hlog]
          · simp only [List.mem_append, List.mem_singleton]
            rintro a (ha | rfl)
            · exact hgo.moved a ha
            · exact hne
          · rw [List.length_append, List.length_singleton]
            omega
        refine ⟨⟨⟨done, hkept⟩, hanswered⟩, ?_⟩
        have hzero : ∀ {r : Except BackendError Unit × Bool}, (∃ e, r.1 = .error e) →
            (ans.res.count ≠ .done 0 ∨ r.1 = .error (.io eio)) → Returned total Done r s' := by
          rintro r ⟨e, he⟩ hor
          refine ⟨fun hok => ?_, fun hmem => ?_⟩
          · rw [he] at hok
            cases hok
          · rcases hor with hne | hio
            · exact absurd rfl ((hnext hne).moved _ hmem)
            · exact hio
        obtain ⟨res, dropped⟩ := ans
        rcases res with e | e | n
        · exact hzero ⟨_, rfl⟩ (.inl (by simp [Sys.count]))
        · dsimp only
          split
          · rename_i hflag
            have hdc : dontcache = true := by
              have := hflag.1
              simp only [Bool.and_eq_true] at this
              exact this.2
            subst hdc
            exact rwvLoop_into hadv hbase fuel (by simp at hfuel ⊢; omega) hle hcov hkept
              (hnext (by simp [Sys.count]))
          · exact hzero ⟨_, rfl⟩ (.inl (by simp [Sys.count]))
        · dsimp only
          split
          · exact hzero ⟨_, rfl⟩ (.inr rfl)
          · rename_i hpos
            have hn : n.1 ≤ total - done := Nat.le_trans n.2 (Nat.le_of_eq (covers_total hcov))
            rw [Prog.into_bind]
            refine Prog.into_check (advanceIovecs_eq n.2) ?_
            have hdc : (dontcache && !dropped).toNat ≤ dontcache.toNat := by
              cases dontcache <;> cases dropped <;> decide
            refine rwvLoop_into hadv hbase fuel (by omega) (by omega) ?_ (hmoved n.1 rfl)
              (hnext (by simpa [Sys.count] using hpos))
            have hrest := advance_covers hcov hn
            rwa [Nat.sub_sub] at hrest

end Rwv

/-! ## Writes and reads -/

section Calls

variable {base total : Nat} {fixed : Option Nat} {segs : List (List UInt8)} {file : Nat → UInt8}

/-- After a write of `done` bytes: they are in the file, and the file is as it was outside the
range. -/
structure Written (base total : Nat) (file : Nat → UInt8) (segs : List (List UInt8)) (done : Nat)
    (s : IoWorld) : Prop where
  segs_eq : s.segs = segs
  bytes : ∀ i < done, segs.flatten[i]? = some (s.file (base + i))
  outside : ∀ x, ¬(base ≤ x ∧ x < base + total) → s.file x = file x

/-- After a read of `done` bytes: they are in the segments, and the segments are as they were after
the range. -/
structure Filled (base total : Nat) (file : Nat → UInt8) (segs : List (List UInt8)) (done : Nat)
    (s : IoWorld) : Prop where
  file_eq : s.file = file
  lens : s.segs.map List.length = segs.map List.length
  bytes : ∀ i < done, s.segs.flatten[i]? = some (file (base + i))
  outside : ∀ i, total ≤ i → s.segs.flatten[i]? = segs.flatten[i]?

theorem written_call (hlen : total ≤ segs.flatten.length) :
    Advances true base total fixed (segs.map List.length) (Written base total file segs) := by
  rintro iovs done dontcache ans s s' hle hcov hw ⟨w, hwlen, rfl, hdone⟩
  have htotal : iovsLen iovs = total - done := covers_total hcov
  rw [htotal] at hwlen
  have hgather : gather s.segs iovs = (segs.flatten.drop done).take (total - done) := by
    rw [hw.segs_eq]
    exact gather_eq iovs segs hcov
  have hkept : ∀ i < done, segs.flatten[i]? = some (patch s.file (base + done) w (base + i)) := by
    intro i hi
    rw [patch_outside (.inl (by omega))]
    exact hw.bytes i hi
  have houtside : ∀ x, ¬(base ≤ x ∧ x < base + total) →
      patch s.file (base + done) w x = file x := by
    intro x hx
    rw [patch_outside (by omega)]
    exact hw.outside x hx
  refine ⟨⟨hw.segs_eq, hkept, houtside⟩, fun n hn => ⟨hw.segs_eq, fun i hi => ?_, houtside⟩, rfl⟩
  rcases Nat.lt_or_ge i done with hlt | hge
  · exact hkept i hlt
  · obtain ⟨k, rfl⟩ := Nat.exists_eq_add_of_le hge
    have hn' : n ≤ total - done := htotal ▸ Sys.count_le hn
    have hk : k < n := by omega
    obtain ⟨byte, hbyte⟩ : ∃ byte, segs.flatten[done + k]? = some byte :=
      ⟨_, List.getElem?_eq_getElem (by omega)⟩
    have hw : w[k]? = some byte := by
      have htake := congrArg (·[k]?) (hdone n hn)
      simp only [List.getElem?_take_of_lt hk, hgather] at htake
      rw [htake, List.getElem?_take_of_lt (by omega), List.getElem?_drop, hbyte]
    dsimp only
    rw [← Nat.add_assoc, patch_inside hw, hbyte]

theorem read_call (hlen : total ≤ segs.flatten.length) :
    Advances false base total fixed (segs.map List.length) (Filled base total file segs) := by
  rintro iovs done dontcache ans s s' hle hcov hf ⟨w, hwlen, rfl, hdone⟩
  have htotal : iovsLen iovs = total - done := covers_total hcov
  rw [htotal] at hwlen
  have hroom : total ≤ s.segs.flatten.length := by
    rwa [List.length_flatten, hf.lens, ← List.length_flatten]
  rw [← hf.lens] at hcov
  obtain ⟨hflat, hlens⟩ := scatter_flatten iovs s.segs hcov (Nat.le_of_eq hwlen) (by omega)
  have hget := @getElem?_blit done _ s.segs.flatten w (by omega)
  have hkept : ∀ i < done, (scatter s.segs iovs w).flatten[i]? = some (file (base + i)) := by
    intro i hi
    rw [hflat, hget, if_pos hi]
    exact hf.bytes i hi
  have houtside : ∀ i, total ≤ i → (scatter s.segs iovs w).flatten[i]? = segs.flatten[i]? := by
    intro i hi
    rw [hflat, hget, if_neg (by omega), if_neg (by omega)]
    exact hf.outside i hi
  refine ⟨⟨hf.file_eq, hlens.trans hf.lens, hkept, houtside⟩,
    fun n hn => ⟨hf.file_eq, hlens.trans hf.lens, fun i hi => ?_, houtside⟩, rfl⟩
  rcases Nat.lt_or_ge i done with hlt | hge
  · exact hkept i hlt
  · obtain ⟨k, rfl⟩ := Nat.exists_eq_add_of_le hge
    have hn' : n ≤ total - done := htotal ▸ Sys.count_le hn
    have hk : k < n := by omega
    have htake := congrArg (·[k]?) (hdone n hn)
    simp only [List.getElem?_take_of_lt hk, List.getElem?_map, List.getElem?_range hk,
      Option.map_some] at htake
    dsimp only
    rw [hflat, hget, if_neg (by omega), if_pos (by omega), Nat.add_sub_cancel_left, htake,
      hf.file_eq, Nat.add_assoc]

end Calls

/-! ## The command -/

/-- A range that passes the check ends below the width of an offset, also with the part of a block
that the check leaves out. -/
theorem base_add_total_le (f : FileStore) {slba total : Nat}
    (h : slba + total >>> f.geometry.blockShift ≤ f.geometry.nrBlocks) :
    slba * 2 ^ f.geometry.blockShift + total ≤ 2 ^ 64 := by
  have hs := f.geometry.blockShift_le
  have hpos : 0 < 2 ^ f.geometry.blockShift := Nat.two_pow_pos _
  have hsplit : (2 : Nat) ^ 64 = 2 ^ (64 - f.geometry.blockShift) * 2 ^ f.geometry.blockShift := by
    rw [← Nat.pow_add]
    congr 1
    omega
  have hblocks : f.geometry.nrBlocks + 1 ≤ 2 ^ (64 - f.geometry.blockShift) := by
    have := f.geometry.bytes_lt
    rw [hsplit] at this
    exact Nat.lt_of_mul_lt_mul_right this
  have hpart : total ≤ (total >>> f.geometry.blockShift + 1) * 2 ^ f.geometry.blockShift := by
    rw [Nat.shiftRight_eq_div_pow, Nat.mul_comm]
    exact Nat.le_of_lt (Nat.lt_mul_div_succ total hpos)
  calc slba * 2 ^ f.geometry.blockShift + total
      ≤ (slba + (total >>> f.geometry.blockShift + 1)) * 2 ^ f.geometry.blockShift := by
        rw [Nat.add_mul]
        omega
    _ ≤ 2 ^ (64 - f.geometry.blockShift) * 2 ^ f.geometry.blockShift :=
        Nat.mul_le_mul_right _ (by omega)
    _ = 2 ^ 64 := hsplit.symm

theorem rwSegs_into (f : FileStore) {direct dontcache write : Bool} {slba total : Nat}
    {fixed : Option Nat} {segs : List (List UInt8)} {Done : Nat → IoWorld → Prop} {s : IoWorld}
    (hadv : Advances write (slba * 2 ^ f.geometry.blockShift) total fixed (segs.map List.length)
      Done)
    (hsegs : segs.length ≤ SlotData.maxSegs) (hlen : total ≤ segs.flatten.length)
    (hstart : Done 0 s) (hfirst : s.answers = []) :
    (f.rwSegs direct dontcache write slba segs total fixed).into VecOp.act
      (fun s => (∃ d, Done d s) ∧ Answered total s) (Returned total Done) s := by
  have hnone : ∀ {r : Except BackendError Unit × Bool}, (r.1 = .ok () → Done total s) →
      Returned total Done r s := fun hok => ⟨hok, fun hzero => by
    rw [hfirst] at hzero
    cases hzero⟩
  unfold rwSegs
  rw [Prog.into_bind]
  refine Prog.into_check (Checked.require_ok _ (Nat.le_trans (fillIovecs_length ..) hsegs)) ?_
  unfold rwv
  split
  · rename_i hzero
    exact hnone fun _ => hzero ▸ hstart
  · split
    · exact hnone fun hok => by cases hok
    · rename_i hcheck
      have hin := checkRange_eq_ok hcheck
      rw [Prog.into_bind]
      refine Prog.into_check (f.geometry.shl_ok (Nat.le_trans (Nat.le_add_right ..) hin)) ?_
      have hcov := fillIovecs_covers segs [] total hlen
      refine rwvLoop_into hadv (f.base_add_total_le hin) (total + 1) ?_ (Nat.zero_le _) hcov hstart
        ⟨fun a ha => ?_, ?_⟩
      · cases dontcache <;> simp
      · rw [hfirst] at ha
        cases ha
      · rw [hfirst, List.length_nil, Nat.zero_add]

/-! ## Write zeroes -/

section Zeroes

variable {start len : Nat} {file : Nat → UInt8}

def Same (start len : Nat) (file s : Nat → UInt8) : Prop :=
  ∀ x, ¬(start ≤ x ∧ x < start + len) → s x = file x

def Zeroed (start len : Nat) (file : Nat → UInt8) (r : Except BackendError Unit)
    (s : Nat → UInt8) : Prop :=
  Same start len file s ∧ (r = .ok () → ∀ x, start ≤ x → x < start + len → s x = 0)

theorem Same.patch {s : Nat → UInt8} {off : Nat} {w : List UInt8} (h : Same start len file s)
    (hlow : start ≤ off) (hhigh : off + w.length ≤ start + len) :
    Same start len file (patch s off w) := by
  intro x hx
  rw [patch_outside (by omega)]
  exact h x hx

/-- The loop of the fallback: what is before `off` has been zeroed. -/
theorem writeZeroChunks_into (hend : start + len < 2 ^ 64) : ∀ (fuel : Nat) {remaining off : Nat}
    {s : Nat → UInt8}, remaining ≤ fuel → start ≤ off → off + remaining = start + len →
    Same start len file s → (∀ x, start ≤ x → x < off → s x = 0) →
    (writeZeroChunks fuel remaining off).into StoreOp.act (Same start len file)
      (Zeroed start len file) s
  | _, 0, off, s, _, _, hoff, hsame, hzero => by
    unfold writeZeroChunks
    exact ⟨hsame, fun _ x hx hlt => hzero x hx (by omega)⟩
  | 0, _ + 1, _, _, hf, _, _, _, _ => absurd hf (by omega)
  | fuel + 1, remaining + 1, off, s, hf, hlow, hoff, hsame, hzero => by
    have hwant : Nat.min (remaining + 1) zeroChunkLen ≤ remaining + 1 := Nat.min_le_left ..
    unfold writeZeroChunks writeAt
    rw [Prog.into_bind]
    refine Prog.into_ask.2 ?_
    rintro res s' ⟨w, hw, rfl, hdone⟩
    have hsame' := hsame.patch (w := w) hlow (by omega)
    refine ⟨hsame', ?_⟩
    rcases res with e | e | ⟨n, hn⟩
    · exact ⟨hsame', fun hok => by cases hok⟩
    · exact ⟨hsame', fun hok => by cases hok⟩
    · dsimp only
      split
      · exact ⟨hsame', fun hok => by cases hok⟩
      · rw [Prog.into_bind]
        refine Prog.into_check (Checked.sub_ok (by omega)) ?_
        rw [Prog.into_bind]
        refine Prog.into_check (Checked.add_ok (by omega)) ?_
        refine writeZeroChunks_into hend fuel (by omega) (by omega) (by omega) hsame' ?_
        intro x hx hlt
        rcases Nat.lt_or_ge x off with hbefore | hafter
        · rw [patch_outside (.inl hbefore)]
          exact hzero x hx hbefore
        · obtain ⟨k, rfl⟩ := Nat.exists_eq_add_of_le hafter
          have hk : k < n := by omega
          have htake := congrArg (·[k]?) (hdone n rfl)
          simp only [List.getElem?_take_of_lt hk, List.getElem?_replicate, if_pos hk] at htake
          exact patch_inside htake

theorem zeroRange_into (hend : start + len < 2 ^ 64) : ∀ (modes : List Nat) {s : Nat → UInt8},
    Same start len file s →
    (zeroRange start len modes).into StoreOp.act (Same start len file) (Zeroed start len file) s
  | [], s, hsame => writeZeroChunks_into hend len (Nat.le_refl _) (Nat.le_refl _) rfl hsame
      fun x hx hlt => absurd hx (by omega)
  | mode :: rest, s, hsame => by
    unfold zeroRange fallocate
    rw [Prog.into_bind]
    refine Prog.into_ask.2 ?_
    rintro res s' ⟨w, hw, rfl, hdone⟩
    have hsame' := hsame.patch (w := w) (Nat.le_refl _) (by omega)
    refine ⟨hsame', ?_⟩
    rcases res with e | e | u
    · exact ⟨hsame', fun hok => by cases hok⟩
    · dsimp only
      split
      · exact zeroRange_into hend rest hsame'
      · exact ⟨hsame', fun hok => by cases hok⟩
    · refine ⟨hsame', fun _ x hx hlt => ?_⟩
      obtain ⟨k, rfl⟩ := Nat.exists_eq_add_of_le hx
      refine patch_inside ?_
      rw [hdone rfl, List.getElem?_replicate, if_pos (by omega)]

theorem writeZeroes_into (f : FileStore) (range : LbaRange) (file : Nat → UInt8) :
    (f.writeZeroes range).into StoreOp.act
      (Same (range.slba * 2 ^ f.geometry.blockShift) (range.nlb * 2 ^ f.geometry.blockShift) file)
      (Zeroed (range.slba * 2 ^ f.geometry.blockShift) (range.nlb * 2 ^ f.geometry.blockShift) file)
      file := by
  have hsame : ∀ start len, Same start len file file := fun _ _ _ _ => rfl
  unfold writeZeroes
  split
  · exact ⟨hsame _ _, fun hok => by cases hok⟩
  · rename_i hcheck
    have hin := checkRange_eq_ok hcheck
    rw [Prog.into_bind]
    refine Prog.into_check (f.geometry.shl_ok (by omega)) ?_
    rw [Prog.into_bind]
    refine Prog.into_check (f.geometry.shl_ok (by omega)) ?_
    exact zeroRange_into (Nat.lt_of_le_of_lt (f.geometry.bytes_le hin) f.geometry.bytes_lt) _
      (hsame _ _)

end Zeroes

end FileStore

/-! ## Any run -/

open FileStore

/-- Only bytes of the range were touched: of the file by a write, of the segments by a read. -/
def OnlyInRange (write : Bool) (base total : Nat) (file : Nat → UInt8) (segs : List (List UInt8))
    (s : IoWorld) : Prop :=
  if write then s.segs = segs ∧ ∀ x, ¬(base ≤ x ∧ x < base + total) → s.file x = file x
  else s.file = file ∧ s.segs.map List.length = segs.map List.length ∧
    ∀ i, total ≤ i → s.segs.flatten[i]? = segs.flatten[i]?

/-- Every byte of the range was transferred, between its file offset and its place in the segments'
concatenation. -/
def Transferred (write : Bool) (base total : Nat) (file : Nat → UInt8) (segs : List (List UInt8))
    (s : IoWorld) : Prop :=
  if write then ∀ i < total, segs.flatten[i]? = some (s.file (base + i))
  else ∀ i < total, s.segs.flatten[i]? = some (file (base + i))

/-- **File IO is exact.** Whatever the calls of a read or write are answered: it does not panic, it
makes at most one call a byte and one for the flag, it touches no byte outside its range, it
succeeds only when it has transferred the whole range, and a transfer of nothing ends it with an
error. The zeroing of a range, through its fallback too, is exact in the same way. -/
theorem file_io_exact (f : FileStore) :
    (∀ (direct dontcache write : Bool) (slba total : Nat) (fixed : Option Nat)
      (segs : List (List UInt8)) (file : Nat → UInt8) (out : Option (Except Panic _)) (s : IoWorld),
      segs.length ≤ SlotData.maxSegs → total ≤ segs.flatten.length →
      Prog.Acts VecOp.act (f.rwSegs direct dontcache write slba segs total fixed)
        ⟨file, segs, []⟩ out s →
      (∀ p, out ≠ some (.error p)) ∧ s.answers.length ≤ total + 1 ∧
      OnlyInRange write (slba * 2 ^ f.geometry.blockShift) total file segs s ∧
      (∀ r, out = some (.ok r) → r.1 = .ok () →
        Transferred write (slba * 2 ^ f.geometry.blockShift) total file segs s) ∧
      (∀ a ∈ s.answers.dropLast, a ≠ .done 0) ∧
      (∀ r, out = some (.ok r) → .done 0 ∈ s.answers → r.1 = .error (.io eio))) ∧
    ∀ (range : LbaRange) (file : Nat → UInt8) (out : Option (Except Panic _)) (s : Nat → UInt8),
      Prog.Acts StoreOp.act (f.writeZeroes range) file out s →
      (∀ p, out ≠ some (.error p)) ∧
      Same (range.slba * 2 ^ f.geometry.blockShift) (range.nlb * 2 ^ f.geometry.blockShift) file s ∧
      (∀ r, out = some (.ok r) →
        Zeroed (range.slba * 2 ^ f.geometry.blockShift) (range.nlb * 2 ^ f.geometry.blockShift) file
          r s) := by
  refine ⟨?_, ?_⟩
  · intro direct dontcache write slba total fixed segs file out s hsegs hlen hrun
    have hstart : Answered total ⟨file, segs, []⟩ := ⟨fun _ ha => (nomatch ha), Nat.zero_le _⟩
    cases write with
    | true =>
      have hw : Written (slba * 2 ^ f.geometry.blockShift) total file segs 0 ⟨file, segs, []⟩ :=
        ⟨rfl, fun i hi => absurd hi (Nat.not_lt_zero i), fun _ _ => rfl⟩
      obtain ⟨⟨⟨d, hd⟩, hans⟩, hout⟩ := Prog.into_sound
        (f.rwSegs_into (written_call hlen) hsegs hlen hw rfl) ⟨⟨0, hw⟩, hstart⟩ hrun
      refine ⟨fun p hp => ?_, hans.calls, ⟨hd.segs_eq, hd.outside⟩, fun r hr hok => ?_, hans.last,
        fun r hr => ?_⟩
      · obtain ⟨r, hr, -⟩ := hout _ hp
        cases hr
      · obtain ⟨_, heq, hret⟩ := hout _ hr
        cases heq
        exact (hret.moved hok).bytes
      · obtain ⟨_, heq, hret⟩ := hout _ hr
        cases heq
        exact hret.zero
    | false =>
      have hf : Filled (slba * 2 ^ f.geometry.blockShift) total file segs 0 ⟨file, segs, []⟩ :=
        ⟨rfl, rfl, fun i hi => absurd hi (Nat.not_lt_zero i), fun _ _ => rfl⟩
      obtain ⟨⟨⟨d, hd⟩, hans⟩, hout⟩ := Prog.into_sound
        (f.rwSegs_into (read_call hlen) hsegs hlen hf rfl) ⟨⟨0, hf⟩, hstart⟩ hrun
      refine ⟨fun p hp => ?_, hans.calls, ⟨hd.file_eq, hd.lens, hd.outside⟩, fun r hr hok => ?_,
        hans.last, fun r hr => ?_⟩
      · obtain ⟨r, hr, -⟩ := hout _ hp
        cases hr
      · obtain ⟨_, heq, hret⟩ := hout _ hr
        cases heq
        exact (hret.moved hok).bytes
      · obtain ⟨_, heq, hret⟩ := hout _ hr
        cases heq
        exact hret.zero
  · intro range file out s hrun
    obtain ⟨hsame, hout⟩ := Prog.into_sound (f.writeZeroes_into range file) (fun _ _ => rfl) hrun
    refine ⟨fun p hp => ?_, hsame, fun r hr => ?_⟩
    · obtain ⟨r, hr, -⟩ := hout _ hp
      cases hr
    · obtain ⟨_, heq, hret⟩ := hout _ hr
      cases heq
      exact hret

private def twoBytes : FileStore where
  kind := .regular
  geometry :=
    { blockShift := 0
      nrBlocks := 2
      blockShift_le := by decide
      bytes_lt := by decide }

theorem file_io_exact_short : ∃ s,
    Prog.Acts VecOp.act (twoBytes.rwSegs false false true 0 [[7], [9]] 2 none)
      ⟨fun _ => 0, [[7], [9]], []⟩ (some (.ok (.ok (), false))) s ∧
    Transferred true 0 2 (fun _ => 0) [[7], [9]] s := by
  have hfirst : VecOp.act (.rw true [⟨0, 0, 1⟩, ⟨1, 0, 1⟩] 0 none false)
      ⟨.done ⟨1, by decide⟩, false⟩ ⟨fun _ => 0, [[7], [9]], []⟩
      ⟨patch (fun _ => 0) 0 [7, 0], [[7], [9]], [.done 1]⟩ :=
    ⟨[7, 0], rfl, rfl, fun n hn => by cases hn; rfl⟩
  have hsecond : VecOp.act (.rw true [⟨1, 0, 1⟩] 1 none false)
      ⟨.done ⟨1, by decide⟩, false⟩ ⟨patch (fun _ => 0) 0 [7, 0], [[7], [9]], [.done 1]⟩
      ⟨patch (patch (fun _ => 0) 0 [7, 0]) 1 [9], [[7], [9]], [.done 1, .done 1]⟩ :=
    ⟨[9], rfl, rfl, fun n hn => by cases hn; rfl⟩
  have hrun : Prog.Acts VecOp.act (twoBytes.rwSegs false false true 0 [[7], [9]] 2 none)
      ⟨fun _ => 0, [[7], [9]], []⟩ (some (.ok (.ok (), false))) _ :=
    .call hfirst (.call hsecond (.ret ..))
  obtain ⟨-, -, -, hmoved, -⟩ := (file_io_exact twoBytes).1 false false true 0 2 none [[7], [9]]
    _ _ _ (by decide) (by decide) hrun
  rw [Nat.zero_mul] at hmoved
  exact ⟨_, hrun, hmoved _ rfl rfl⟩

end Ioutgt.Backend
