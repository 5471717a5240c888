import Mathlib.Data.List.Basic
import Mathlib.Logic.Function.Basic

/-!
# Counting the members of a table

`tally n P f` is how many of the first `n` entries of the table `f` satisfy `P`.

* `tally_update`: what changing one entry does to the count.
-/

namespace Lib

variable {α : Type}

/-- How many of the entries `f 0 … f (n - 1)` satisfy `P`. -/
def tally : Nat → (α → Bool) → (Nat → α) → Nat
  | 0, _, _ => 0
  | n + 1, P, f => tally n P f + if P (f n) then 1 else 0

theorem tally_congr {P : α → Bool} {f g : Nat → α} :
    ∀ {n : Nat}, (∀ i < n, P (f i) = P (g i)) → tally n P f = tally n P g
  | 0, _ => rfl
  | n + 1, h => by
    rw [tally, tally, tally_congr fun i hi => h i (by omega), h n (by omega)]

theorem tally_update (P : α → Bool) (f : Nat → α) (t : Nat) (a : α) :
    ∀ {n : Nat}, t < n →
      tally n P (Function.update f t a) + (if P (f t) then 1 else 0)
        = tally n P f + if P a then 1 else 0
  | n + 1, h => by
    by_cases ht : t = n
    · subst ht
      have hrest : tally t P (Function.update f t a) = tally t P f :=
        tally_congr fun i hi => by rw [Function.update_of_ne (by omega)]
      rw [tally, tally, hrest, Function.update_self]
      omega
    · have ih := tally_update P f t a (n := n) (by omega)
      rw [tally, tally, Function.update_of_ne (by omega)]
      omega

theorem tally_le (P : α → Bool) (f : Nat → α) : ∀ n, tally n P f ≤ n
  | 0 => Nat.le_refl 0
  | n + 1 => by
    have := tally_le P f n
    rw [tally]
    split <;> omega

theorem tally_lt_iff {P : α → Bool} {f : Nat → α} :
    ∀ {n : Nat}, tally n P f < n ↔ ∃ i < n, P (f i) = false
  | 0 => by simp
  | n + 1 => by
    have hle := tally_le P f n
    have ih := tally_lt_iff (P := P) (f := f) (n := n)
    rw [tally]
    cases hp : P (f n) with
    | false =>
      refine ⟨fun _ => ⟨n, Nat.lt_succ_self n, hp⟩, fun _ => ?_⟩
      simp
      omega
    | true =>
      simp only [if_true, Nat.add_lt_add_iff_right]
      refine ih.trans ⟨?_, ?_⟩
      · rintro ⟨i, hi, h⟩
        exact ⟨i, by omega, h⟩
      · rintro ⟨i, hi, h⟩
        rcases Nat.lt_succ_iff_lt_or_eq.1 hi with hi | rfl
        · exact ⟨i, hi, h⟩
        · rw [hp] at h
          cases h

theorem tally_eq_zero {P : α → Bool} {f : Nat → α} :
    ∀ {n : Nat}, (∀ i < n, P (f i) = false) → tally n P f = 0
  | 0, _ => rfl
  | n + 1, h => by
    rw [tally, tally_eq_zero fun i hi => h i (by omega), h n (by omega)]
    rfl

theorem tally_pos {P : α → Bool} {f : Nat → α} {t : Nat} :
    ∀ {n : Nat}, t < n → P (f t) = true → 0 < tally n P f
  | n + 1, h, hp => by
    rw [tally]
    by_cases ht : t = n
    · subst ht
      simp [hp]
    · have := tally_pos (n := n) (by omega) hp
      omega

end Lib
