import Mathlib.Data.List.Basic

/-!
# Resumable consumers of a cut stream

A consumer takes its input from a stream that arrives in chunks cut anywhere. Each round works on
what is left of the current chunk and says how much of it it took. `Resumable` is the condition
under which the cuts do not matter: a round that sees more input either does what it did on the
shorter input, or it ran into the end of the shorter input and goes on from there.

* `Resumable.chunk_append`: two chunks are as good as their concatenation.
* `Resumable.chunks_eq`: the outcome depends on the stream and not on its cuts.
-/

namespace Lib

structure Consumer (S B : Type) where
  stopped : S → Bool
  /-- One round on a non-empty buffer: the next state, and how much of the buffer was taken. -/
  round : S → List B → S × Nat

namespace Consumer

variable {S B : Type} {s : S}

/-- Rounds on one buffer until it is empty or the consumer stops; with what is left of it. -/
def run (c : Consumer S B) : Nat → S → List B → S × List B
  | 0, s, bs => (s, bs)
  | fuel + 1, s, bs =>
    if c.stopped s || bs.isEmpty then (s, bs)
    else c.run fuel (c.round s bs).1 (bs.drop (c.round s bs).2)

def chunk (c : Consumer S B) (s : S) (bs : List B) : S := (c.run bs.length s bs).1

def chunks (c : Consumer S B) (s : S) (cs : List (List B)) : S := cs.foldl c.chunk s

/-- Two rounds end alike. How much a round that stops has taken does not matter. -/
def Same (c : Consumer S B) (x y : S × Nat) : Prop :=
  x.1 = y.1 ∧ (c.stopped y.1 = false → x.2 = y.2)

/-- Rounds keep `Inv`, make progress, and can be cut short by the end of the buffer and resumed. -/
structure Resumable (c : Consumer S B) (Inv : S → Prop) : Prop where
  inv : ∀ {s bs}, Inv s → c.stopped s = false → bs ≠ [] → Inv (c.round s bs).1
  taken : ∀ {s bs}, Inv s → c.stopped s = false → bs ≠ [] → (c.round s bs).2 ≤ bs.length
  progress : ∀ {s bs}, Inv s → c.stopped s = false → bs ≠ [] →
    c.stopped (c.round s bs).1 = false → 0 < (c.round s bs).2
  resume : ∀ {s a b}, Inv s → c.stopped s = false → a ≠ [] → b ≠ [] →
    c.Same (c.round s (a ++ b)) (c.round s a) ∨
      c.stopped (c.round s a).1 = false ∧ (c.round s a).2 = a.length ∧
        c.Same (c.round s (a ++ b)) ((c.round (c.round s a).1 b).1,
          a.length + (c.round (c.round s a).1 b).2)

variable {c : Consumer S B} {Inv : S → Prop}

theorem run_stopped (h : c.stopped s = true) (fuel : Nat) (bs : List B) :
    c.run fuel s bs = (s, bs) := by
  cases fuel <;> simp [run, h]

@[simp] theorem run_nil (c : Consumer S B) (fuel : Nat) (s : S) : c.run fuel s [] = (s, []) := by
  cases fuel <;> simp [run]

@[simp] theorem chunk_nil (c : Consumer S B) (s : S) : c.chunk s [] = s := rfl

theorem chunk_stopped (h : c.stopped s = true) (bs : List B) : c.chunk s bs = s := by
  rw [chunk, run_stopped h]

namespace Resumable

theorem run_fuel (hc : Resumable c Inv) :
    ∀ (fuel : Nat) {s : S} {bs : List B}, Inv s → bs.length ≤ fuel →
      c.run fuel s bs = c.run bs.length s bs ∧
        (c.stopped (c.run fuel s bs).1 = true ∨ (c.run fuel s bs).2 = [])
  | 0, s, bs, _, hl => by
    have hb : bs = [] := List.eq_nil_of_length_eq_zero (by omega)
    subst hb
    simp
  | fuel + 1, s, bs, hi, hl => by
    by_cases hs : c.stopped s = true
    · simp [run_stopped hs, hs]
    by_cases hb : bs = []
    · subst hb
      simp
    have hs' : c.stopped s = false := by simpa using hs
    obtain ⟨m, hm⟩ : ∃ m, bs.length = m + 1 :=
      ⟨bs.length - 1, by have := List.length_pos_iff.2 hb; omega⟩
    have hunf : ∀ k, c.run (k + 1) s bs = c.run k (c.round s bs).1 (bs.drop (c.round s bs).2) := by
      intro k
      simp [run, hs', hb]
    rw [hm, hunf fuel, hunf m]
    have hi' := hc.inv hi hs' hb
    by_cases hst : c.stopped (c.round s bs).1 = true
    · simp [run_stopped hst, hst]
    have hpos := hc.progress hi hs' hb (by simpa using hst)
    have hlen : (bs.drop (c.round s bs).2).length ≤ m := by rw [List.length_drop]; omega
    have h1 := run_fuel hc fuel hi' (Nat.le_trans hlen (by omega))
    by_cases hmf : m = fuel
    · subst hmf
      exact ⟨rfl, h1.2⟩
    have h2 := run_fuel hc m hi' hlen
    exact ⟨h1.1.trans h2.1.symm, h1.2⟩
termination_by fuel => fuel

theorem chunk_round (hc : Resumable c Inv) (hi : Inv s) (hs : c.stopped s = false) {bs : List B}
    (hb : bs ≠ []) : c.chunk s bs = c.chunk (c.round s bs).1 (bs.drop (c.round s bs).2) := by
  obtain ⟨m, hm⟩ : ∃ m, bs.length = m + 1 :=
    ⟨bs.length - 1, by have := List.length_pos_iff.2 hb; omega⟩
  have hunf : c.run (m + 1) s bs = c.run m (c.round s bs).1 (bs.drop (c.round s bs).2) := by
    simp [run, hs, hb]
  rw [chunk, hm, hunf, chunk]
  by_cases hst : c.stopped (c.round s bs).1 = true
  · rw [run_stopped hst, run_stopped hst]
  have hpos := hc.progress hi hs hb (by simpa using hst)
  rw [(hc.run_fuel m (hc.inv hi hs hb) (by rw [List.length_drop]; omega)).1]

theorem chunk_inv (hc : Resumable c Inv) (hi : Inv s) (bs : List B) : Inv (c.chunk s bs) := by
  induction hn : bs.length using Nat.strongRecOn generalizing s bs with
  | _ n ih =>
    by_cases hs : c.stopped s = true
    · rwa [chunk_stopped hs]
    by_cases hb : bs = []
    · subst hb
      simpa using hi
    have hs' : c.stopped s = false := by simpa using hs
    rw [hc.chunk_round hi hs' hb]
    have hi' := hc.inv hi hs' hb
    by_cases hst : c.stopped (c.round s bs).1 = true
    · rwa [chunk_stopped hst]
    have hpos := hc.progress hi hs' hb (by simpa using hst)
    have hlt := List.length_pos_iff.2 hb
    exact ih _ (by rw [List.length_drop]; omega) hi' _ rfl

/-- **Cutting a chunk in two** changes nothing. -/
theorem chunk_append (hc : Resumable c Inv) (hi : Inv s) (a b : List B) :
    c.chunk s (a ++ b) = c.chunk (c.chunk s a) b := by
  induction hn : a.length using Nat.strongRecOn generalizing s a with
  | _ n ih =>
    by_cases hs : c.stopped s = true
    · rw [chunk_stopped hs, chunk_stopped hs, chunk_stopped hs]
    by_cases ha : a = []
    · subst ha
      simp
    by_cases hb : b = []
    · subst hb
      simp
    have hs' : c.stopped s = false := by simpa using hs
    have hab : a ++ b ≠ [] := by simp [ha]
    rw [hc.chunk_round hi hs' hab, hc.chunk_round hi hs' ha]
    have hi' := hc.inv hi hs' ha
    rcases hc.resume hi hs' ha hb with ⟨hst1, hn1⟩ | ⟨hst, hall, hst1, hn1⟩
    · rw [hst1]
      by_cases hst : c.stopped (c.round s a).1 = true
      · rw [chunk_stopped hst, chunk_stopped hst, chunk_stopped hst]
      have hst' : c.stopped (c.round s a).1 = false := by simpa using hst
      have hpos := hc.progress hi hs' ha hst'
      have hle := hc.taken hi hs' ha
      rw [hn1 hst', List.drop_append_of_le_length hle]
      exact ih _ (by rw [List.length_drop]; omega) hi' _ rfl
    · -- the round on `a` alone stopped at the end of `a`
      rw [hst1, hall, List.drop_length, chunk_nil, hc.chunk_round hi' hst hb]
      by_cases hst2 : c.stopped (c.round (c.round s a).1 b).1 = true
      · rw [chunk_stopped hst2, chunk_stopped hst2]
      rw [hn1 (by simpa using hst2), ← List.drop_drop, List.drop_left]

theorem chunks_flatten (hc : Resumable c Inv) (hi : Inv s) (cs : List (List B)) :
    c.chunks s cs = c.chunk s cs.flatten := by
  induction cs generalizing s with
  | nil => simp [chunks]
  | cons a cs ih =>
    rw [List.flatten_cons, hc.chunk_append hi]
    exact ih (hc.chunk_inv hi a)

/-- **The cuts do not matter.** -/
theorem chunks_eq (hc : Resumable c Inv) (hi : Inv s) {cs cs' : List (List B)}
    (h : cs.flatten = cs'.flatten) : c.chunks s cs = c.chunks s cs' := by
  rw [hc.chunks_flatten hi, hc.chunks_flatten hi, h]

theorem chunks_inv (hc : Resumable c Inv) (hi : Inv s) (cs : List (List B)) :
    Inv (c.chunks s cs) := by
  rw [hc.chunks_flatten hi]
  exact hc.chunk_inv hi _

end Resumable

end Consumer

end Lib
