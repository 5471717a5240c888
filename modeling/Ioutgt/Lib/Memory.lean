import Mathlib.Data.List.Basic

/-!
# Flat memory

A memory is a byte at every address; ranges of it are read and written as byte strings.

* `load_append`: two adjacent ranges read as one.
* `load_congr`: a range reads the same from memories that agree on it.
* `load_store`, `store_of_outside`: a write is read back, and leaves the rest alone.
-/

namespace Lib

abbrev Memory := Nat → UInt8

namespace Memory

def load (m : Memory) (ptr len : Nat) : List UInt8 := (List.range len).map fun i => m (ptr + i)

def store (m : Memory) (ptr : Nat) (bytes : List UInt8) : Memory := fun a =>
  if ptr ≤ a then (bytes[a - ptr]?).getD (m a) else m a

variable {m m' : Memory} {ptr len : Nat} {bytes : List UInt8}

@[simp] theorem load_length (m : Memory) (ptr len : Nat) : (m.load ptr len).length = len := by
  simp [load]

@[simp] theorem load_zero (m : Memory) (ptr : Nat) : m.load ptr 0 = [] := rfl

theorem load_append (m : Memory) (ptr a b : Nat) :
    m.load ptr (a + b) = m.load ptr a ++ m.load (ptr + a) b := by
  simp only [load, List.range_add, List.map_append, List.map_map]
  congr 1
  refine List.map_congr_left fun i _ => ?_
  simp [Nat.add_assoc]

theorem load_congr (h : ∀ a, ptr ≤ a → a < ptr + len → m a = m' a) :
    m.load ptr len = m'.load ptr len := by
  refine List.map_congr_left fun i hi => ?_
  have hi := List.mem_range.1 hi
  exact h (ptr + i) (by omega) (by omega)

theorem load_take (m : Memory) (ptr : Nat) {n len : Nat} (h : n ≤ len) :
    (m.load ptr len).take n = m.load ptr n := by
  obtain ⟨k, rfl⟩ := Nat.exists_eq_add_of_le h
  rw [load_append, List.take_left' (load_length m ptr n)]

theorem load_drop (m : Memory) (ptr : Nat) {n len : Nat} (h : n ≤ len) :
    (m.load ptr len).drop n = m.load (ptr + n) (len - n) := by
  obtain ⟨k, rfl⟩ := Nat.exists_eq_add_of_le h
  rw [load_append, List.drop_left' (load_length m ptr n), Nat.add_sub_cancel_left]

theorem store_of_outside {a : Nat} (h : a < ptr ∨ ptr + bytes.length ≤ a) :
    m.store ptr bytes a = m a := by
  simp only [store]
  split
  · rw [List.getElem?_eq_none (by omega), Option.getD_none]
  · rfl

theorem load_store (m : Memory) (ptr : Nat) (bytes : List UInt8) :
    (m.store ptr bytes).load ptr bytes.length = bytes := by
  refine List.ext_getElem (by simp) fun i _ hi => ?_
  simp [load, store, hi]

end Memory

end Lib
