import Mathlib.Data.List.Sort
import Mathlib.Order.Basic

/-!
# Reading an ordered list in pages

A server hands out the first `k` elements above a cursor; a client asks again from the last
element it got until a page is not full.

* `filter_lt_eq_page_append`: what is left after a full page is what lies above its last element.
* `collect_eq_filter`: the client gets every element above its first cursor, once and in order.
-/

namespace Lib

variable {α : Type} [LinearOrder α]

/-- The first `k` elements of `l` above `a`. -/
def page (k : Nat) (l : List α) (a : α) : List α := (l.filter (a < ·)).take k

/-- Ask from the last element received until a page has fewer than `k` elements, `n` times at
most. -/
def collect (fetch : α → List α) (k : Nat) : Nat → α → Option (List α)
  | 0, _ => none
  | n + 1, a =>
    let p := fetch a
    if p.length < k then some p
    else
      match p.getLast? with
      | none => some p
      | some b => (collect fetch k n b).map (p ++ ·)

omit [LinearOrder α] in
theorem exists_getLast?_take {k : Nat} {l : List α} (hk : 0 < k) (hl : k ≤ l.length) :
    ∃ b, (l.take k).getLast? = some b := by
  have hne : l.take k ≠ [] := by
    intro h
    have := congrArg List.length h
    simp only [List.length_take, List.length_nil] at this
    omega
  exact ⟨_, List.getLast?_eq_some_getLast hne⟩

/-- In an increasing list, what lies above the last element of a page is what follows the page. -/
theorem filter_lt_eq_page_append {k : Nat} {l : List α} {a b : α} (hs : l.Pairwise (· < ·))
    (hp : (page k l a).getLast? = some b) :
    l.filter (a < ·) = page k l a ++ l.filter (b < ·) := by
  have hm : (l.filter (a < ·)).Pairwise (· < ·) := hs.filter _
  obtain ⟨init, hinit⟩ : ∃ init, page k l a = init ++ [b] := List.getLast?_eq_some_iff.1 hp
  have hsplit : l.filter (a < ·) = init ++ [b] ++ (l.filter (a < ·)).drop k := by
    rw [← hinit, page, List.take_append_drop]
  have hab : a < b := by
    have hb : b ∈ l.filter (a < ·) := by rw [hsplit]; simp
    simpa using (List.mem_filter.1 hb).2
  -- filtering by `b` what was filtered by `a`
  have hff : l.filter (b < ·) = (l.filter (a < ·)).filter (b < ·) := by
    rw [List.filter_filter]
    refine List.filter_congr fun x _ => ?_
    by_cases hx : b < x
    · simp [hx, hab.trans hx]
    · simp [hx]
  rw [hsplit] at hm
  obtain ⟨hleft, -, hcross⟩ := List.pairwise_append.1 hm
  have hlow : (init ++ [b]).filter (b < ·) = [] := by
    rw [List.filter_eq_nil_iff]
    intro x hx
    obtain hx | hx := List.mem_append.1 hx
    · simpa using ((List.pairwise_append.1 hleft).2.2 x hx b (by simp)).le
    · simp [List.mem_singleton.1 hx]
  have hhigh : ((l.filter (a < ·)).drop k).filter (b < ·) = (l.filter (a < ·)).drop k := by
    rw [List.filter_eq_self]
    intro x hx
    simpa using hcross b (by simp) x hx
  rw [hff]
  conv_rhs => rw [hsplit, List.filter_append, hlow, hhigh, List.nil_append, hinit]
  exact hsplit

/-- Enough requests collect everything above the cursor. -/
theorem collect_eq_filter {k : Nat} {l : List α} (hs : l.Pairwise (· < ·)) (hk : 0 < k) :
    ∀ {n : Nat} {a : α}, (l.filter (a < ·)).length < n * k →
      collect (page k l) k n a = some (l.filter (a < ·))
  | 0, a, h => by simp at h
  | n + 1, a, h => by
    have hlen : (page k l a).length = min k (l.filter (a < ·)).length := List.length_take
    unfold collect
    dsimp only
    split
    · -- a page that is not full is all there is
      rename_i hshort
      rw [page, List.take_of_length_le (by omega)]
    · rename_i hfull
      obtain ⟨b, hb⟩ := exists_getLast?_take hk (l := l.filter (a < ·)) (by omega)
      have happ := filter_lt_eq_page_append (k := k) hs hb
      have hrest : (l.filter (b < ·)).length < n * k := by
        have hsum := congrArg List.length happ
        rw [List.length_append, hlen] at hsum
        have : (n + 1) * k = n * k + k := Nat.succ_mul n k
        omega
      rw [show (page k l a).getLast? = some b from hb]
      dsimp only
      rw [collect_eq_filter hs hk hrest, Option.map_some, ← happ]

end Lib
