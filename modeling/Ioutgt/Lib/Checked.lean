import Mathlib.Algebra.Ring.Nat

/-!
# Checked computation

A checked computation ends in a value, in an error its caller handles, or in a panic: an index
outside a buffer, an arithmetic underflow or overflow, a failed assertion, an arm declared
unreachable. Keeping panics apart from errors lets a development state that they never occur.

* `Checked.bind_eq_ok`: what a successful sequence of two computations went through.
* `sub_ok`, `add_ok`, `mul_ok`, `shl_ok`, `require_ok`: the checked primitives succeed when their
  condition holds.
* `Safe`: the computation does not panic.
* `toOption_eq_some`, `toOption_join_eq_some`: a computation read as an option that has a value.
* `foldlM_invariant`: a loop whose every round keeps an invariant ends well.
-/

namespace Lib

inductive Panic where
  | indexOutOfBounds
  | arithOverflow
  | assertFailed
  | unreachable
  | outOfFuel
  deriving DecidableEq, Repr

theorem except_bind_eq_ok {ε α β : Type} {x : Except ε α} {f : α → Except ε β} {b : β} :
    (x >>= f) = .ok b ↔ ∃ a, x = .ok a ∧ f a = .ok b := by
  cases x with
  | error e => exact ⟨fun h => (nomatch h), fun ⟨_, h, _⟩ => (nomatch h)⟩
  | ok a => exact ⟨fun h => ⟨a, rfl, h⟩, fun ⟨_, ha, h⟩ => Except.ok.inj ha ▸ h⟩

inductive Fail (ε : Type) where
  | err (e : ε)
  | panic (p : Panic)
  deriving DecidableEq, Repr

/-- A computation that returns a value, returns an error, or panics. -/
abbrev Checked (ε α : Type) : Type := Except (Fail ε) α

namespace Checked

variable {ε α β : Type}

def raise (e : ε) : Checked ε α := .error (.err e)

def abort (p : Panic) : Checked ε α := .error (.panic p)

/-- Unsigned subtraction, which panics on underflow. -/
def sub (a b : Nat) : Checked ε Nat :=
  if b ≤ a then .ok (a - b) else abort .arithOverflow

/-- Unsigned `w`-bit addition, which panics on overflow. -/
def add (w a b : Nat) : Checked ε Nat :=
  if a + b < 2 ^ w then .ok (a + b) else abort .arithOverflow

/-- Unsigned `w`-bit multiplication, which panics on overflow. -/
def mul (w a b : Nat) : Checked ε Nat :=
  if a * b < 2 ^ w then .ok (a * b) else abort .arithOverflow

/-- Unsigned `w`-bit left shift: a shift by the width or more panics, bits shifted out are lost. -/
def shl (w a s : Nat) : Checked ε Nat :=
  if s < w then .ok ((a <<< s) % 2 ^ w) else abort .arithOverflow

def mapErr {ε' : Type} (f : ε → ε') : Checked ε α → Checked ε' α
  | .ok a => .ok a
  | .error (.err e) => .error (.err (f e))
  | .error (.panic p) => .error (.panic p)

/-- Go on if `c` holds, panic with `p` otherwise. -/
def require (c : Prop) [Decidable c] (p : Panic) : Checked ε Unit :=
  if c then .ok () else abort p

def Safe (x : Checked ε α) : Prop := ∀ p, x ≠ .error (.panic p)

theorem sub_ok {a b : Nat} (h : b ≤ a) : (sub a b : Checked ε Nat) = .ok (a - b) := if_pos h

theorem add_ok {w a b : Nat} (h : a + b < 2 ^ w) : (add w a b : Checked ε Nat) = .ok (a + b) :=
  if_pos h

theorem mul_ok {w a b : Nat} (h : a * b < 2 ^ w) : (mul w a b : Checked ε Nat) = .ok (a * b) :=
  if_pos h

theorem shl_ok {w a s : Nat} (hs : s < w) (h : a * 2 ^ s < 2 ^ w) :
    (shl w a s : Checked ε Nat) = .ok (a * 2 ^ s) := by
  rw [shl, if_pos hs, Nat.shiftLeft_eq, Nat.mod_eq_of_lt h]

theorem require_ok {c : Prop} [Decidable c] (p : Panic) (h : c) :
    (require c p : Checked ε Unit) = .ok () := if_pos h

@[simp] theorem bind_ok (a : α) (f : α → Checked ε β) : (Except.ok a >>= f) = f a := rfl

@[simp] theorem bind_error (e : Fail ε) (f : α → Checked ε β) :
    ((Except.error e : Checked ε α) >>= f) = .error e := rfl

theorem bind_eq_ok {x : Checked ε α} {f : α → Checked ε β} {b : β} :
    (x >>= f) = .ok b ↔ ∃ a, x = .ok a ∧ f a = .ok b := except_bind_eq_ok

theorem bind_same {β' : Type} {x : Checked ε α} {f : α → Checked ε β} {f' : α → Checked ε β'}
    {g : β → β'} (hf : ∀ a, f' a = g <$> f a) : (x >>= f') = g <$> (x >>= f) := by
  cases x with
  | error e => rfl
  | ok a => exact hf a

theorem bind_map {α' β' : Type} {x : Checked ε α} {x' : Checked ε α'} {f : α → Checked ε β}
    {f' : α' → Checked ε β'} {k : α → α'} {g : β → β'} (hx : x' = k <$> x)
    (hf : ∀ a, f' (k a) = g <$> f a) : (x' >>= f') = g <$> (x >>= f) := by
  rw [hx]
  cases x with
  | error e => rfl
  | ok a => exact hf a

theorem require_eq_ok {c : Prop} [Decidable c] {p : Panic} {u : Unit} :
    (require c p : Checked ε Unit) = .ok u ↔ c := by
  unfold require abort
  split <;> simp_all

theorem add_eq_ok {w a b d : Nat} :
    (add w a b : Checked ε Nat) = .ok d ↔ a + b < 2 ^ w ∧ a + b = d := by
  unfold add abort
  split <;> simp [*]

@[simp] theorem mapErr_ok {ε' : Type} (f : ε → ε') (a : α) : mapErr f (.ok a) = .ok a := rfl

@[simp] theorem raise_ne_ok {e : ε} {a : α} : (raise e : Checked ε α) ≠ .ok a := by simp [raise]

@[simp] theorem abort_ne_ok {p : Panic} {a : α} : (abort p : Checked ε α) ≠ .ok a := by
  simp [abort]

theorem safe_ok (a : α) : Safe (.ok a : Checked ε α) := by simp [Safe]

theorem safe_raise (e : ε) : Safe (raise e : Checked ε α) := by simp [Safe, raise]

theorem Safe.bind {x : Checked ε α} {f : α → Checked ε β} (hx : Safe x)
    (hf : ∀ a, x = .ok a → Safe (f a)) : Safe (x >>= f) := by
  cases x with
  | error e =>
    intro p h
    simp only [bind_error, Except.error.injEq] at h
    exact hx p (by rw [h])
  | ok a => exact hf a rfl

/-! ## A computation as an option -/

theorem toOption_eq_some {x : Checked ε α} {r : α} (h : x.toOption = some r) : x = .ok r := by
  cases x with
  | error e => cases h
  | ok a => exact congrArg _ (Option.some.inj h)

theorem toOption_join_eq_some {x : Checked ε (Option α)} {r : α} (h : x.toOption.join = some r) :
    x = .ok (some r) := by
  cases x with
  | error e => cases h
  | ok a => exact congrArg _ h

theorem toOption_map (f : α → β) (x : Checked ε α) : (f <$> x).toOption = x.toOption.map f := by
  cases x <;> rfl

theorem toOption_join_map (f : α → β) (x : Checked ε (Option α)) :
    (Option.map f <$> x).toOption.join = x.toOption.join.map f := by
  cases x with
  | error e => rfl
  | ok a => rfl

/-! ## Loops -/

theorem mapM_mul (w s : Nat) (l : List Nat) : (l.mapM (mul w s) : Checked ε _) =
    if ∀ a ∈ l, s * a < 2 ^ w then .ok (l.map (s * ·)) else abort .arithOverflow := by
  induction l with
  | nil => rfl
  | cons a l ih =>
    simp only [List.mapM_cons, ih, mul, List.forall_mem_cons]
    by_cases ha : s * a < 2 ^ w
    · by_cases hl : ∀ b ∈ l, s * b < 2 ^ w
      · rw [if_pos ha, if_pos hl, if_pos ⟨ha, hl⟩]
        rfl
      · rw [if_pos ha, if_neg hl, if_neg fun h => hl h.2]
        rfl
    · rw [if_neg ha, if_neg fun h : s * a < 2 ^ w ∧ _ => ha h.1]
      rfl

/-- **The induction over a checked loop.** What one round keeps, and does not panic on, the whole
loop keeps. -/
theorem foldlM_invariant {σ α : Type} {step : σ → α → Checked ε σ} {Inv : σ → Prop}
    (hstep : ∀ {s} (a : α), Inv s → ∃ s', step s a = .ok s' ∧ Inv s') :
    ∀ (as : List α) {s : σ}, Inv s → ∃ s', as.foldlM step s = .ok s' ∧ Inv s'
  | [], s, hi => ⟨s, rfl, hi⟩
  | a :: as, s, hi => by
    obtain ⟨t, ht, hi⟩ := hstep a hi
    obtain ⟨s', hs, hi⟩ := foldlM_invariant hstep as hi
    exact ⟨s', by rw [List.foldlM_cons, ht, bind_ok, hs], hi⟩

end Checked

end Lib
