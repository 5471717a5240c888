import Mathlib.Algebra.Ring.Nat
import Mathlib.Data.List.Basic

/-!
# Byte strings

Little-endian integers, slices and fixed-size buffers that are overwritten in place.

* `le_toLe`: encoding a number and reading it back.
* `blit_blit`: two adjacent copies into a buffer are one copy.
* `Buf.write`: the bounds-checked copy of `copy_from_slice`.
-/

namespace Lib

variable {bs a b : List UInt8} {off len n i k : Nat}

def utf8 (s : String) : List UInt8 := s.toUTF8.toList

/-! ## Little-endian integers -/

/-- The number a little-endian byte string spells. -/
def le : List UInt8 → Nat
  | [] => 0
  | b :: bs => b.toNat + 256 * le bs

/-- The `k` low bytes of `n`, little end first. -/
def toLe : Nat → Nat → List UInt8
  | 0, _ => []
  | k + 1, n => UInt8.ofNat n :: toLe k (n / 256)

@[simp] theorem toLe_length (k n : Nat) : (toLe k n).length = k := by
  induction k generalizing n with
  | zero => rfl
  | succ k ih => simp [toLe, ih]

theorem le_toLe (k n : Nat) : le (toLe k n) = n % 256 ^ k := by
  induction k generalizing n with
  | zero => simp [toLe, le, Nat.mod_one]
  | succ k ih =>
    have low : (UInt8.ofNat n).toNat = n % 256 := by simp
    rw [toLe, le, ih, low, Nat.pow_succ (n := 256), Nat.mul_comm (256 ^ k) 256, Nat.mod_mul]

/-! ## Slices -/

/-- `len` bytes of `bs` from `off` on. -/
def slice (bs : List UInt8) (off len : Nat) : List UInt8 := (bs.drop off).take len

def byteAt (bs : List UInt8) (i : Nat) : Nat := (bs.getD i 0).toNat

/-- The little-endian number held in the `len` bytes of `bs` from `off` on. -/
def leAt (bs : List UInt8) (off len : Nat) : Nat := le (slice bs off len)

theorem slice_take (h : off + len ≤ n) : slice (bs.take n) off len = slice bs off len := by
  simp only [slice, List.drop_take, List.take_take]
  congr 1
  omega

theorem byteAt_take (h : i < n) : byteAt (bs.take n) i = byteAt bs i := by
  simp [byteAt, h]

theorem leAt_take (h : off + len ≤ n) : leAt (bs.take n) off len = leAt bs off len := by
  rw [leAt, slice_take h, leAt]

theorem slice_length (bs : List UInt8) (off len : Nat) :
    (slice bs off len).length = min len (bs.length - off) := by
  simp [slice]

theorem slice_slice (h : i + n ≤ len) : slice (slice bs off len) i n = slice bs (off + i) n := by
  unfold slice
  rw [List.drop_take, List.take_take, List.drop_drop]
  congr 1
  omega

theorem slice_add (bs : List UInt8) (off m n : Nat) :
    slice bs off (m + n) = slice bs off m ++ slice bs (off + m) n := by
  rw [slice, slice, slice, List.take_add, List.drop_drop]

theorem slice_drop (bs : List UInt8) (off len n : Nat) :
    (slice bs off len).drop n = slice bs (off + n) (len - n) := by
  rw [slice, slice, List.drop_take, List.drop_drop]

theorem take_slice (bs : List UInt8) (off len n : Nat) :
    (slice bs off len).take n = slice bs off (min n len) := by
  rw [slice, slice, List.take_take]

theorem slice_append (h : a.length ≤ off) :
    slice (a ++ b) off len = slice b (off - a.length) len := by
  rw [slice, slice, List.drop_append, List.drop_eq_nil_of_le h, List.nil_append]

theorem slice_append_left (h : off + len ≤ a.length) :
    slice (a ++ b) off len = slice a off len := by
  rw [slice, slice, List.drop_append_of_le_length (by omega), List.take_append_of_le_length]
  rw [List.length_drop]
  omega

theorem leAt_append_left (h : off + len ≤ a.length) : leAt (a ++ b) off len = leAt a off len := by
  rw [leAt, slice_append_left h, leAt]

theorem leAt_append_right (h : a.length ≤ off) :
    leAt (a ++ b) off len = leAt b (off - a.length) len := by rw [leAt, slice_append h, leAt]

theorem leAt_toLe (k n : Nat) : leAt (toLe k n) 0 k = n % 256 ^ k := by
  rw [leAt, slice, List.drop_zero, List.take_of_length_le (by simp), le_toLe]

theorem leAt_toLe_append (h : n < 256 ^ k) : leAt (toLe k n ++ b) 0 k = n := by
  rw [leAt_append_left (by simp), leAt_toLe, Nat.mod_eq_of_lt h]

theorem byteAt_eq_leAt (bs : List UInt8) (i : Nat) : byteAt bs i = leAt bs i 1 := by
  unfold byteAt leAt slice
  cases hd : bs.drop i with
  | nil =>
    have hlen : bs.length ≤ i := List.drop_eq_nil_iff.1 hd
    simp [le, List.getD, List.getElem?_eq_none hlen]
  | cons b rest =>
    have hget : bs[i]? = some b := by
      rw [← List.head?_drop, hd, List.head?_cons]
    simp [le, List.getD, hget]

/-- The chunks of a string cut into equal ones. -/
theorem slice_flatten {cs : List (List UInt8)} (h : ∀ c ∈ cs, c.length = k) (i : Nat) :
    slice cs.flatten (k * i) k = cs.getD i [] := by
  induction cs generalizing i with
  | nil => simp [slice]
  | cons c cs ih =>
    have hc : c.length = k := h c (by simp)
    cases i with
    | zero => simp [slice, List.take_left' hc]
    | succ i =>
      have hk : c.length ≤ k * (i + 1) := by rw [hc, Nat.mul_succ]; omega
      rw [List.flatten_cons, slice_append hk, hc, Nat.mul_succ, Nat.add_sub_cancel,
        ih (fun c hc => h c (by simp [hc]))]
      rfl

theorem flatMap_slice (bs : List UInt8) (w n : Nat) :
    ((List.range n).flatMap fun i => slice bs (i * w) w) = bs.take (n * w) := by
  induction n with
  | zero => simp
  | succ n ih =>
    rw [List.range_succ, List.flatMap_append, ih, Nat.succ_mul, List.take_add]
    simp [slice]

/-! ## Overwriting in place -/

section
variable {α : Type} {dst src : List α}

/-- `dst` with `src` copied over it from index `off` on. -/
def blit (dst : List α) (off : Nat) (src : List α) : List α :=
  dst.take off ++ src ++ dst.drop (off + src.length)

theorem blit_length (h : off + src.length ≤ dst.length) :
    (blit dst off src).length = dst.length := by
  simp [blit]; omega

theorem getElem?_blit (h : off ≤ dst.length) (i : Nat) :
    (blit dst off src)[i]? =
      if i < off then dst[i]? else if i < off + src.length then src[i - off]? else dst[i]? := by
  have htake : (dst.take off).length = off := by simp [h]
  unfold blit
  split_ifs with h₁ h₂
  · rw [List.append_assoc, List.getElem?_append_left (by omega), List.getElem?_take_of_lt h₁]
  · rw [List.append_assoc, List.getElem?_append_right (by omega), htake,
      List.getElem?_append_left (by omega)]
  · rw [List.getElem?_append_right (by simp; omega), List.getElem?_drop]
    congr 1
    simp
    omega

theorem blit_nil (dst : List α) (off : Nat) : blit dst off [] = dst := by simp [blit]

theorem blit_all (h : src.length = dst.length) : blit dst 0 src = src := by
  simp [blit, h]

theorem blit_replicate {a : α} (h : off + n ≤ k) :
    blit (List.replicate k a) off (List.replicate n a) = List.replicate k a := by
  simp only [blit, List.take_replicate, List.drop_replicate, List.length_replicate,
    List.replicate_append_replicate]
  congr 1
  omega

theorem take_blit (h : off ≤ dst.length) :
    (blit dst off src).take (off + src.length) = dst.take off ++ src := by
  have hl : (dst.take off ++ src).length = off + src.length := by simp; omega
  rw [blit, ← hl, List.take_left]

theorem blit_blit {a b : List α} (h : off ≤ dst.length) :
    blit (blit dst off a) (off + a.length) b = blit dst off (a ++ b) := by
  have hl : (dst.take off ++ a).length = off + a.length := by simp; omega
  have hd : (blit dst off a).drop (off + a.length + b.length)
      = dst.drop (off + (a ++ b).length) := by
    rw [blit, List.drop_append, List.drop_eq_nil_of_le (by omega), hl]
    simp [List.drop_drop, Nat.add_assoc]
  rw [blit, take_blit h, hd]
  simp [blit]

end

/-! ## Stores without an end -/

section
variable {α : Type} {src : List α}

def patch (store : Nat → α) (off : Nat) (src : List α) : Nat → α := fun x =>
  if off ≤ x then (src[x - off]?).getD (store x) else store x

theorem patch_outside {store : Nat → α} {x : Nat} (h : x < off ∨ off + src.length ≤ x) :
    patch store off src x = store x := by
  unfold patch
  split_ifs with hx
  · rw [List.getElem?_eq_none (by omega)]
    rfl
  · rfl

theorem patch_inside {store : Nat → α} {a : α} (h : src[i]? = some a) :
    patch store off src (off + i) = a := by
  unfold patch
  rw [if_pos (Nat.le_add_right ..), Nat.add_sub_cancel_left, h]
  rfl

end

structure Buf (n : Nat) where
  bytes : List UInt8
  size : bytes.length = n
  deriving DecidableEq

namespace Buf

variable {n : Nat}

def zero (n : Nat) : Buf n := ⟨List.replicate n 0, by simp⟩

def write (b : Buf n) (off : Nat) (src : List UInt8) : Option (Buf n) :=
  if h : off + src.length ≤ n then
    some ⟨blit b.bytes off src, by rw [blit_length (by rw [b.size]; exact h), b.size]⟩
  else none

@[ext] theorem ext {a b : Buf n} (h : a.bytes = b.bytes) : a = b := by
  cases a; cases b; cases h; rfl

theorem write_eq_some {b b' : Buf n} {src : List UInt8} :
    b.write off src = some b' ↔ off + src.length ≤ n ∧ b'.bytes = blit b.bytes off src := by
  unfold write
  split
  · simp only [Option.some.injEq]
    constructor
    · rintro rfl
      exact ⟨‹_›, rfl⟩
    · rintro ⟨-, h⟩
      exact (Buf.ext h).symm
  · simp [*]

end Buf

end Lib
