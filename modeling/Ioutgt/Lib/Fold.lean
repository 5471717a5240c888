import Ioutgt.Lib.Checked
import Mathlib.Data.List.Forall2

/-!
# Loops over a list

Invariants of a loop that mention how much of the list is done.

* `foldl_done`, `foldlM_done`: the induction over a loop, and over one that may fail;
* `mapM_forall₂`: a checked map whose every element succeeds;
* `forall₂_getElem?`, `forall₂_mem_left`, `forall₂_mem_right`: the partner of an element.
-/

namespace Lib

variable {ε σ α β : Type} {R : α → β → Prop} {as : List α} {bs : List β}

/-- **The induction over a loop.** What one round carries from the elements done before it to those
done after it holds of the whole list at the end. -/
theorem foldl_done (step : σ → α → σ) (Inv : List α → σ → Prop) (l : List α) (s : σ)
    (start : Inv [] s)
    (round : ∀ done a rest s, l = done ++ a :: rest → Inv done s → Inv (done ++ [a]) (step s a)) :
    Inv l (l.foldl step s) := by
  have general : ∀ rest done s, l = done ++ rest → Inv done s → Inv l (rest.foldl step s) := by
    intro rest
    induction rest with
    | nil =>
      intro done s hl hi
      rw [hl, List.append_nil]
      exact hi
    | cons a rest ih =>
      intro done s hl hi
      exact ih (done ++ [a]) _ (by rw [hl, List.append_assoc]; rfl) (round done a rest s hl hi)
  exact general l [] s rfl start

/-- The same for a loop whose rounds may fail, and do not. -/
theorem foldlM_done (step : σ → α → Checked ε σ) (Inv : List α → σ → Prop) (l : List α) (s : σ)
    (start : Inv [] s)
    (round : ∀ done a rest s, l = done ++ a :: rest → Inv done s →
      ∃ s', step s a = .ok s' ∧ Inv (done ++ [a]) s') :
    ∃ s', l.foldlM step s = .ok s' ∧ Inv l s' := by
  have general : ∀ rest done s, l = done ++ rest → Inv done s →
      ∃ s', rest.foldlM step s = .ok s' ∧ Inv l s' := by
    intro rest
    induction rest with
    | nil =>
      intro done s hl hi
      rw [List.append_nil] at hl
      exact ⟨s, rfl, hl ▸ hi⟩
    | cons a rest ih =>
      intro done s hl hi
      obtain ⟨t, ht, hi⟩ := round done a rest s hl hi
      obtain ⟨s', hs, hi⟩ := ih (done ++ [a]) t (by rw [hl, List.append_assoc]; rfl) hi
      exact ⟨s', by rw [List.foldlM_cons, ht, Checked.bind_ok, hs], hi⟩
  exact general l [] s rfl start

theorem mapM_forall₂ {f : α → Checked ε β} {l : List α} (h : ∀ a ∈ l, ∃ b, f a = .ok b ∧ R a b) :
    ∃ bs, l.mapM f = .ok bs ∧ List.Forall₂ R l bs := by
  induction l with
  | nil => exact ⟨[], rfl, .nil⟩
  | cons a l ih =>
    obtain ⟨b, hb, hr⟩ := h a (List.mem_cons_self ..)
    obtain ⟨bs, hbs, hrs⟩ := ih fun a ha => h a (List.mem_cons_of_mem _ ha)
    exact ⟨b :: bs, by rw [List.mapM_cons, hb, Checked.bind_ok, hbs]; rfl, .cons hr hrs⟩

theorem forall₂_getElem? (h : List.Forall₂ R as bs) {i : Nat} {b : β} (hb : bs[i]? = some b) :
    ∃ a, as[i]? = some a ∧ R a b := by
  induction h generalizing i with
  | nil => cases hb
  | cons hab _ ih =>
    cases i with
    | zero =>
      cases hb
      exact ⟨_, rfl, hab⟩
    | succ i => exact ih (by simpa using hb)

theorem forall₂_mem_left (h : List.Forall₂ R as bs) {a : α} (ha : a ∈ as) : ∃ b ∈ bs, R a b := by
  induction h with
  | nil => cases ha
  | cons hab _ ih =>
    rcases List.mem_cons.1 ha with rfl | ha
    · exact ⟨_, List.mem_cons_self .., hab⟩
    · obtain ⟨b, hb, hr⟩ := ih ha
      exact ⟨b, List.mem_cons_of_mem _ hb, hr⟩

theorem forall₂_mem_right (h : List.Forall₂ R as bs) {b : β} (hb : b ∈ bs) : ∃ a ∈ as, R a b := by
  obtain ⟨a, ha, hr⟩ := forall₂_mem_left h.flip hb
  exact ⟨a, ha, hr⟩

end Lib
