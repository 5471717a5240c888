import Mathlib.Algebra.BigOperators.Ring.Finset
import Mathlib.Algebra.Order.BigOperators.Group.Finset
import Mathlib.Algebra.Order.BigOperators.Group.List
import Mathlib.Algebra.Group.Action.Defs

/-!
# Sharing a total

Tables of counts that add up to a total, and the two ways to cut a total in near-proportional
parts: even shares, and floors of proportional shares with the remainder to be handed out.

* `filled_modify`, `exists_room`, `full_of_filled_eq`: counting a table up against quotas;
* `sum_even`, `even_mono`: even shares;
* `sum_floors`: proportional shares, rounded down;
* `remainderShare`, `mem_take_iff`: proportional shares by largest remainder;
* `sum_range_of_ne`, `exists_pos_of_lt_sum`: one share changed, and a share besides a given one.
-/

namespace Lib

variable {α : Type}

theorem getD_modify {l : List α} {j : Nat} (hj : j < l.length) (f : α → α) (i : Nat) (d : α) :
    (l.modify j f).getD i d = if i = j then f (l.getD i d) else l.getD i d := by
  rw [List.getD_eq_getElem?_getD, List.getD_eq_getElem?_getD, List.getElem?_modify]
  by_cases h : i = j
  · subst h
    simp [List.getElem?_eq_getElem hj]
  · simp [h, Ne.symm h]

theorem sum_modify {l : List Nat} {j : Nat} (hj : j < l.length) :
    (l.modify j (· + 1)).sum = l.sum + 1 := by
  induction l generalizing j with
  | nil => cases hj
  | cons a l ih =>
    cases j with
    | zero =>
      rw [List.modify_zero_cons, List.sum_cons, List.sum_cons]
      omega
    | succ j =>
      rw [List.modify_succ_cons, List.sum_cons, List.sum_cons, ih (Nat.lt_of_succ_lt_succ hj)]
      omega

/-! ## Counting up against quotas -/

/-- What the first `k` entries of a table add up to. -/
def filled (k : Nat) (fill : List Nat) : Nat := ∑ j ∈ Finset.range k, fill.getD j 0

def Within (fill quota : List Nat) : Prop := ∀ j, fill.getD j 0 ≤ quota.getD j 0

variable {fill quota : List Nat} {j k : Nat}

theorem filled_modify (hj : j < k) (hl : j < fill.length) :
    filled k (fill.modify j (· + 1)) = filled k fill + 1 := by
  have hpoint : ∀ i, (fill.modify j (· + 1)).getD i 0 = fill.getD i 0 + if i = j then 1 else 0 := by
    intro i
    rw [getD_modify hl]
    split <;> simp
  unfold filled
  rw [Finset.sum_congr rfl fun i _ => hpoint i, Finset.sum_add_distrib, Finset.sum_ite_eq',
    if_pos (Finset.mem_range.2 hj)]

theorem Within.modify (h : Within fill quota) (hl : j < fill.length)
    (hlt : fill.getD j 0 < quota.getD j 0) : Within (fill.modify j (· + 1)) quota := by
  intro i
  rw [getD_modify hl]
  split_ifs with hij
  · rw [hij]
    exact hlt
  · exact h i

theorem exists_room (h : filled k fill < filled k quota) :
    ∃ j < k, fill.getD j 0 < quota.getD j 0 := by
  obtain ⟨j, hj, hlt⟩ := Finset.exists_lt_of_sum_lt h
  exact ⟨j, Finset.mem_range.1 hj, hlt⟩

theorem full_of_filled_eq (h : Within fill quota) (heq : filled k fill = filled k quota)
    (hj : j < k) : fill.getD j 0 = quota.getD j 0 :=
  (Finset.sum_eq_sum_iff_of_le fun i _ => h i).1 heq j (Finset.mem_range.2 hj)

/-! ## Even shares -/

/-- The `i`-th of `k` even shares of `n`. -/
def evenShare (n k i : Nat) : Nat := n / k + if i < n % k then 1 else 0

theorem sum_even (n : Nat) (hk : 0 < k) : ∑ i ∈ Finset.range k, evenShare n k i = n := by
  have hcard : ((Finset.range k).filter (· < n % k)).card = n % k := by
    have hsub : (Finset.range k).filter (· < n % k) = Finset.range (n % k) := by
      ext i
      simp only [Finset.mem_filter, Finset.mem_range]
      have := Nat.mod_lt n hk
      omega
    rw [hsub, Finset.card_range]
  unfold evenShare
  rw [Finset.sum_add_distrib, Finset.sum_const, Finset.card_range, Finset.sum_boole, hcard,
    smul_eq_mul, Nat.cast_id, Nat.div_add_mod]

theorem even_mono {m n : Nat} (h : m ≤ n) (k i : Nat) : evenShare m k i ≤ evenShare n k i := by
  have hdiv : m / k ≤ n / k := Nat.div_le_div_right h
  unfold evenShare
  rcases Nat.lt_or_ge (m / k) (n / k) with hlt | hge
  · split_ifs <;> omega
  · have hq : m / k = n / k := Nat.le_antisymm hdiv hge
    have hm := Nat.div_add_mod m k
    have hn := Nat.div_add_mod n k
    rw [hq] at hm ⊢
    split_ifs <;> omega

theorem even_le_succ (n k i j : Nat) : evenShare n k i ≤ evenShare n k j + 1 := by
  unfold evenShare
  split_ifs <;> omega

theorem even_eq_zero_iff {n k i : Nat} (hi : i < k) : evenShare n k i = 0 ↔ n ≤ i := by
  unfold evenShare
  constructor
  · intro h
    have hdiv : n / k = 0 := Nat.eq_zero_of_add_eq_zero_right h
    have hlt : n < k := (Nat.div_eq_zero_iff_lt (by omega)).1 hdiv
    rw [Nat.mod_eq_of_lt hlt] at h
    split_ifs at h with hin
    exact Nat.not_lt.1 hin
  · intro h
    have hlt : n < k := by omega
    rw [Nat.div_eq_of_lt hlt, Nat.mod_eq_of_lt hlt, if_neg (by omega)]

/-! ## Proportional shares, rounded down -/

theorem sum_quot_rem (s d : Nat) (ws : List Nat) :
    s * ws.sum = d * (ws.map (s * · / d)).sum + (ws.map (s * · % d)).sum := by
  induction ws with
  | nil => rfl
  | cons w ws ih =>
    have hw : s * w = d * (s * w / d) + s * w % d := (Nat.div_add_mod _ _).symm
    simp only [List.map_cons, List.sum_cons, Nat.mul_add, ih]
    omega

theorem sum_floors (s : Nat) {ws : List Nat} (h : 0 < ws.sum) :
    (ws.map (s * · / ws.sum)).sum ≤ s ∧ s ≤ (ws.map (s * · / ws.sum)).sum + ws.length := by
  have hsplit := sum_quot_rem s ws.sum ws
  have hrem : (ws.map (s * · % ws.sum)).sum ≤ ws.length * ws.sum := by
    have hle := List.sum_le_card_nsmul (ws.map (s * · % ws.sum)) ws.sum fun r hr => by
      obtain ⟨w, -, rfl⟩ := List.mem_map.1 hr
      exact Nat.le_of_lt (Nat.mod_lt _ h)
    rwa [List.length_map, smul_eq_mul] at hle
  rw [Nat.mul_comm ws.sum] at hsplit
  refine ⟨Nat.le_of_mul_le_mul_right ?_ h, Nat.le_of_mul_le_mul_right ?_ h⟩
  · omega
  · rw [Nat.add_mul]
    omega

theorem sum_rems_div (s : Nat) {ws : List Nat} (h : 0 < ws.sum) :
    (ws.map (s * · % ws.sum)).sum / ws.sum = s - (ws.map (s * · / ws.sum)).sum := by
  have hsplit := sum_quot_rem s ws.sum ws
  obtain ⟨hle, -⟩ := sum_floors s h
  refine Nat.div_eq_of_eq_mul_right h ?_
  rw [Nat.mul_sub, Nat.mul_comm ws.sum s]
  omega

/-! ## Largest remainders -/

/-- The remainder of entry `j` is larger than that of entry `i`, or the same and `j` comes first. -/
def Ahead (s : Nat) (ws : List Nat) (j i : Nat) : Prop :=
  s * ws.getD i 0 % ws.sum < s * ws.getD j 0 % ws.sum ∨
    s * ws.getD i 0 % ws.sum = s * ws.getD j 0 % ws.sum ∧ j < i

instance (s : Nat) (ws : List Nat) (j i : Nat) : Decidable (Ahead s ws j i) :=
  inferInstanceAs (Decidable (_ ∨ _))

/-- Entry `i`'s share of `s`: its proportional share rounded down, and one more if fewer entries are
ahead of it than rounding down has left over. -/
def remainderShare (s : Nat) (ws : List Nat) (i : Nat) : Nat :=
  s * ws.getD i 0 / ws.sum +
    if (List.range ws.length).countP (Ahead s ws · i) < (ws.map (s * · % ws.sum)).sum / ws.sum
    then 1 else 0

/-- The first `k` of a sorted list are those with fewer than `k` before them. -/
theorem mem_take_iff {r : α → α → Prop} {l : List α} {a : α} (hs : l.Pairwise r) (hn : l.Nodup)
    (ha : a ∈ l) {before : α → Bool} (hb : ∀ b ∈ l, b ≠ a → (before b = true ↔ r b a))
    (hself : before a = false) (hanti : ∀ b ∈ l, r a b → r b a → b = a) (k : Nat) :
    a ∈ l.take k ↔ l.countP before < k := by
  obtain ⟨xs, ys, rfl⟩ := List.append_of_mem ha
  obtain ⟨-, hays, hxs⟩ := List.pairwise_append.1 hs
  obtain ⟨-, haynd, hdisj⟩ := List.nodup_append.1 hn
  have hne : ∀ x ∈ xs, x ≠ a := fun x hx => hdisj x hx a (List.mem_cons_self ..)
  have hcount : (xs ++ a :: ys).countP before = xs.length := by
    have hys : ys.countP before = 0 := List.countP_eq_zero.2 fun y hy hby => by
      have hmem : y ∈ xs ++ a :: ys := List.mem_append_right _ (List.mem_cons_of_mem _ hy)
      have hya : y ≠ a := fun h => (List.nodup_cons.1 haynd).1 (h ▸ hy)
      exact hya (hanti y hmem ((List.pairwise_cons.1 hays).1 y hy) ((hb y hmem hya).1 hby))
    rw [List.countP_append, List.countP_cons, hys, hself, List.countP_eq_length.2 fun x hx =>
      (hb x (List.mem_append_left _ hx) (hne x hx)).2 (hxs x hx a (List.mem_cons_self ..))]
    simp
  rw [hcount, List.take_append, List.mem_append]
  constructor
  · rintro (h | h)
    · exact absurd rfl (hne a (List.mem_of_mem_take h))
    · by_contra hle
      rw [Nat.sub_eq_zero_of_le (Nat.not_lt.1 hle)] at h
      cases h
  · intro hlt
    obtain ⟨m, hm⟩ : ∃ m, k - xs.length = m + 1 := ⟨k - xs.length - 1, by omega⟩
    rw [hm, List.take_succ_cons]
    exact .inr (List.mem_cons_self ..)

/-! ## One share among others -/

theorem sum_range_of_ne {f g : Nat → Nat} {n t : Nat} (ht : t < n) (h : ∀ i, i ≠ t → g i = f i) :
    ∑ i ∈ Finset.range n, g i + f t = ∑ i ∈ Finset.range n, f i + g t := by
  have hmem : t ∈ Finset.range n := Finset.mem_range.2 ht
  have hrest : ∑ i ∈ (Finset.range n).erase t, g i = ∑ i ∈ (Finset.range n).erase t, f i :=
    Finset.sum_congr rfl fun i hi => h i (Finset.ne_of_mem_erase hi)
  rw [← Finset.add_sum_erase _ g hmem, ← Finset.add_sum_erase _ f hmem, hrest]
  omega

theorem exists_pos_of_lt_sum {f : Nat → Nat} {n t : Nat} (h : f t < ∑ i ∈ Finset.range n, f i) :
    ∃ i < n, i ≠ t ∧ 0 < f i := by
  by_contra hnone
  have hzero : ∀ i ∈ Finset.range n, i ≠ t → f i = 0 := by
    intro i hi hne
    by_contra hpos
    exact hnone ⟨i, Finset.mem_range.1 hi, hne, Nat.pos_of_ne_zero hpos⟩
  by_cases ht : t ∈ Finset.range n
  · rw [Finset.sum_eq_single_of_mem t ht hzero] at h
    exact Nat.lt_irrefl _ h
  · have hsum : ∑ i ∈ Finset.range n, f i = 0 :=
      Finset.sum_eq_zero fun i hi => hzero i hi fun heq => ht (heq ▸ hi)
    omega

end Lib
