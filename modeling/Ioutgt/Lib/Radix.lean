import Mathlib.Algebra.Ring.Nat
import Mathlib.Data.List.Induction

/-!
# Digits, most significant first

Numbers as the digit strings a person writes, in any base, and as big-endian bytes.

* `value_digits`, `digits_value`: digits of a fixed width and the number they stand for.
* `digits_add`: a digit string cut in two.
* `leftpad_toDigits`: zero-padded formatting writes the digits of that width.
* `value_pairs`: two digits at a time are one digit of the squared base.
-/

namespace Lib.Radix

variable {b : Nat} {ds : List Nat}

def value (b : Nat) (ds : List Nat) : Nat := ds.foldl (fun n d => b * n + d) 0

def digits (b : Nat) : Nat → Nat → List Nat
  | 0, _ => []
  | w + 1, n => digits b w (n / b) ++ [n % b]

@[simp] theorem value_nil : value b [] = 0 := rfl

@[simp] theorem value_concat (ds : List Nat) (d : Nat) : value b (ds ++ [d]) = b * value b ds + d := by
  simp [value]

@[simp] theorem digits_length (b w n : Nat) : (digits b w n).length = w := by
  induction w generalizing n with
  | zero => rfl
  | succ w ih => simp [digits, ih]

theorem digits_lt (hb : 0 < b) {w n d : Nat} (h : d ∈ digits b w n) : d < b := by
  induction w generalizing n with
  | zero => cases h
  | succ w ih =>
    rcases List.mem_append.1 h with h | h
    · exact ih h
    · rw [List.mem_singleton.1 h]
      exact Nat.mod_lt _ hb

theorem value_digits (b w n : Nat) : value b (digits b w n) = n % b ^ w := by
  induction w generalizing n with
  | zero => simp [digits, Nat.mod_one]
  | succ w ih =>
    rw [digits, value_concat, ih, Nat.pow_succ (n := b), Nat.mul_comm (b ^ w) b, Nat.mod_mul]
    omega

theorem digits_value (hb : 0 < b) (h : ∀ d ∈ ds, d < b) : digits b ds.length (value b ds) = ds := by
  induction ds using List.reverseRecOn with
  | nil => rfl
  | append_singleton ds d ih =>
    have hd : d < b := h d (by simp)
    have hdiv : (b * value b ds + d) / b = value b ds := by
      rw [Nat.mul_add_div hb, Nat.div_eq_of_lt hd, Nat.add_zero]
    have hmod : (b * value b ds + d) % b = d := by
      rw [Nat.mul_add_mod, Nat.mod_eq_of_lt hd]
    rw [List.length_append, List.length_singleton, digits, value_concat, hdiv, hmod,
      ih fun x hx => h x (List.mem_append_left _ hx)]

theorem value_lt (h : ∀ d ∈ ds, d < b) : value b ds < b ^ ds.length := by
  induction ds using List.reverseRecOn with
  | nil => simp
  | append_singleton ds d ih =>
    have hd : d < b := h d (by simp)
    have hv := ih fun x hx => h x (List.mem_append_left _ hx)
    have hmul : b * (value b ds + 1) ≤ b * b ^ ds.length := Nat.mul_le_mul_left b hv
    rw [value_concat, List.length_append, List.length_singleton, Nat.pow_succ (n := b),
      Nat.mul_comm (b ^ _) b]
    rw [Nat.mul_add, Nat.mul_one] at hmul
    omega

theorem digits_add (b v w n : Nat) :
    digits b (v + w) n = digits b v (n / b ^ w) ++ digits b w n := by
  induction w generalizing n with
  | zero => simp [digits]
  | succ w ih =>
    rw [← Nat.add_assoc, digits, digits, ih, Nat.div_div_eq_div_mul, Nat.pow_succ (n := b),
      Nat.mul_comm (b ^ w) b, List.append_assoc]

theorem digits_mod (b w n : Nat) : digits b w (n % b ^ w) = digits b w n := by
  induction w generalizing n with
  | zero => rfl
  | succ w ih =>
    rw [digits, digits, Nat.pow_succ (n := b), Nat.mul_comm (b ^ w) b,
      Nat.mod_mul_right_div_self, ih, Nat.mod_mul_right_mod]

/-! ## Formatting -/

theorem digits_zero (b w : Nat) : digits b w 0 = List.replicate w 0 := by
  induction w with
  | zero => rfl
  | succ w ih => rw [digits, Nat.zero_div, ih, Nat.zero_mod, List.replicate_succ']

theorem leftpad_concat {α : Type} (w : Nat) (a x : α) (l : List α) :
    (l ++ [x]).leftpad (w + 1) a = l.leftpad w a ++ [x] := by
  simp [List.leftpad, List.append_assoc]

theorem leftpad_toDigits (hb : 1 < b) (w : Nat) {n : Nat} (h : n < b ^ (w + 1)) :
    (Nat.toDigits b n).leftpad (w + 1) '0' = (digits b (w + 1) n).map Nat.digitChar := by
  induction w generalizing n with
  | zero =>
    have hn : n < b := by simpa using h
    simp [Nat.toDigits_of_lt_base hn, digits, Nat.mod_eq_of_lt hn, List.leftpad]
  | succ w ih =>
    by_cases hn : n < b
    · have hpad : ([n.digitChar] : List Char).leftpad (w + 1 + 1) '0' =
          List.replicate (w + 1) '0' ++ [n.digitChar] := by simp [List.leftpad]
      rw [Nat.toDigits_of_lt_base hn, hpad, digits, Nat.div_eq_of_lt hn, digits_zero,
        Nat.mod_eq_of_lt hn]
      simp [Nat.digitChar]
    · have hq : 0 < n / b := Nat.div_pos (Nat.not_lt.1 hn) (by omega)
      have hlt : n / b < b ^ (w + 1) :=
        Nat.div_lt_of_lt_mul (by rwa [Nat.mul_comm, ← Nat.pow_succ (n := b)])
      have hr : n % b < b := Nat.mod_lt _ (by omega)
      have hsplit := Nat.toDigits_append_toDigits hb hq hr
      rw [Nat.div_add_mod, Nat.toDigits_of_lt_base hr] at hsplit
      rw [← hsplit, leftpad_concat, ih hlt]
      simp [digits]

/-! ## Two digits at a time -/

def pairs (b : Nat) : List Nat → List Nat
  | h :: l :: rest => (b * h + l) :: pairs b rest
  | _ => []

theorem value_pairs {k : Nat} (h : ds.length = 2 * k) :
    value (b * b) (pairs b ds) = value b ds := by
  have general : ∀ n, (pairs b ds).foldl (fun n d => b * b * n + d) n =
      ds.foldl (fun n d => b * n + d) n := by
    induction k generalizing ds with
    | zero =>
      intro n
      rw [List.length_eq_zero_iff.1 (by omega : ds.length = 0)]
      rfl
    | succ k ih =>
      intro n
      obtain ⟨hi, lo, rest, rfl⟩ : ∃ hi lo rest, ds = hi :: lo :: rest := by
        match ds, h with
        | hi :: lo :: rest, _ => exact ⟨hi, lo, rest, rfl⟩
      have step : b * b * n + (b * hi + lo) = b * (b * n + hi) + lo := by
        rw [Nat.mul_add, Nat.mul_assoc, Nat.add_assoc]
      simp only [pairs, List.foldl_cons, step]
      exact ih (by simp only [List.length_cons] at h; omega) _
  exact general 0

theorem pairs_length {k : Nat} (h : ds.length = 2 * k) : (pairs b ds).length = k := by
  induction k generalizing ds with
  | zero => rw [List.length_eq_zero_iff.1 (by omega : ds.length = 0)]; rfl
  | succ k ih =>
    match ds, h with
    | hi :: lo :: rest, h =>
      rw [pairs, List.length_cons, ih (by simp only [List.length_cons] at h; omega)]

theorem pairs_lt (h : ∀ d ∈ ds, d < b) {p : Nat} (hp : p ∈ pairs b ds) : p < b * b := by
  fun_induction pairs b ds with
  | case1 hi lo rest ih =>
    rcases List.mem_cons.1 hp with rfl | hp
    · have hhi : hi + 1 ≤ b := h hi (by simp)
      have hlo : lo < b := h lo (by simp)
      have hmul : b * (hi + 1) ≤ b * b := Nat.mul_le_mul_left b hhi
      rw [Nat.mul_add, Nat.mul_one] at hmul
      omega
    · exact ih (fun d hd => h d (by simp [hd])) hp
  | case2 => cases hp

/-! ## Big-endian bytes -/

def be (bs : List UInt8) : Nat := value 256 (bs.map UInt8.toNat)

/-- The `k` low bytes of `n`, big end first. -/
def toBe (k n : Nat) : List UInt8 := (digits 256 k n).map UInt8.ofNat

@[simp] theorem toBe_length (k n : Nat) : (toBe k n).length = k := by simp [toBe]

theorem toNat_lt_of_mem {bs : List UInt8} {d : Nat} (h : d ∈ bs.map UInt8.toNat) : d < 256 := by
  obtain ⟨byte, -, rfl⟩ := List.mem_map.1 h
  exact byte.toNat_lt

theorem be_lt (bs : List UInt8) : be bs < 256 ^ bs.length := by
  have h : value 256 (bs.map UInt8.toNat) < 256 ^ (bs.map UInt8.toNat).length :=
    value_lt fun _ => toNat_lt_of_mem
  rwa [List.length_map] at h

theorem toBe_value (h : ∀ d ∈ ds, d < 256) :
    toBe ds.length (value 256 ds) = ds.map UInt8.ofNat := by
  rw [toBe, digits_value (by decide) h]

theorem toBe_be (bs : List UInt8) : toBe bs.length (be bs) = bs := by
  have h : toBe (bs.map UInt8.toNat).length (be bs) = (bs.map UInt8.toNat).map UInt8.ofNat :=
    toBe_value fun _ => toNat_lt_of_mem
  rw [List.length_map, List.map_map] at h
  simpa [Function.comp_def] using h

end Lib.Radix
