import Mathlib.Data.List.Basic

/-!
# Runs of a step function

A system is a step function on states, indexed by actions; `none` means the action is not
possible in that state. `runFrom` chains steps.

* `of_guard`: inversion of an action with a guard.
* `runFrom_invariant`: what every step keeps, every run keeps.
* `StepsOk`, `runFrom_invariant_of`: the same for the runs whose every step meets a condition on
  the state it is taken in.
* `stepsOk_iff`: the converse, where a step that does not meet the condition breaks the invariant.
* `runFrom_good_iff`: where a violation is never undone, the end of a
  run shows whether every step met the condition.
* `stepsOk_congr`, `stepsOk_and`: conditions that agree where it matters, and both of two.
* `runFrom_map_invariant`: the same over the items of a loop.
* `runFrom_related`: two runs of the same actions, from related states, stay related.
-/

namespace Lib

variable {S A : Type}

/-- The state after the actions `as`, when each is possible in its turn. -/
def runFrom (step : S → A → Option S) : S → List A → Option S
  | s, [] => some s
  | s, a :: as => (step s a).bind fun s' => runFrom step s' as

/-- Every step of the run meets `Ok` in the state it is taken in. -/
def StepsOk (step : S → A → Option S) (Ok : S → A → Prop) : S → List A → Prop
  | _, [] => True
  | s, a :: as => Ok s a ∧ ∀ s', step s a = some s' → StepsOk step Ok s' as

instance StepsOk.decidable {step : S → A → Option S} {Ok : S → A → Prop}
    [∀ s a, Decidable (Ok s a)] : ∀ s as, Decidable (StepsOk step Ok s as)
  | _, [] => .isTrue trivial
  | s, a :: as =>
    have : Decidable (∀ s', step s a = some s' → StepsOk step Ok s' as) :=
      match h : step s a with
      | none => .isTrue fun _ hs => by cases hs
      | some t => @decidable_of_iff _ (StepsOk step Ok t as)
          ⟨fun ht _ hs => Option.some.inj hs ▸ ht, fun hall => hall t rfl⟩ (StepsOk.decidable t as)
    inferInstanceAs (Decidable (_ ∧ _))

def Reaches (step : S → A → Option S) (s s' : S) : Prop := ∃ as, runFrom step s as = some s'

variable {step : S → A → Option S}

@[simp] theorem runFrom_nil (s : S) : runFrom step s [] = some s := rfl

theorem runFrom_cons {s s' : S} {a : A} {as : List A} :
    runFrom step s (a :: as) = some s' ↔ ∃ t, step s a = some t ∧ runFrom step t as = some s' := by
  simp [runFrom, Option.bind_eq_some_iff]

/-- A guarded action was possible: its guard held, and this is where it led. -/
theorem of_guard {c : Prop} [Decidable c] {s s' : S} (h : (if c then some s else none) = some s') :
    c ∧ s = s' := by
  simpa using h

/-- **The induction over a run**, for the runs whose steps meet `Ok`. -/
theorem runFrom_invariant_of {Inv : S → Prop} {Ok : S → A → Prop}
    (hstep : ∀ {s a s'}, Inv s → Ok s a → step s a = some s' → Inv s') :
    ∀ {as : List A} {s s' : S}, Inv s → StepsOk step Ok s as → runFrom step s as = some s' → Inv s'
  | [], s, s', hi, _, hr => by
    obtain rfl : s = s' := by simpa using hr
    exact hi
  | a :: as, s, s', hi, hok, hr => by
    obtain ⟨t, ht, hr⟩ := runFrom_cons.1 hr
    exact runFrom_invariant_of hstep (hstep hi hok.1 ht) (hok.2 t ht) hr

/-- If a step keeps `Inv` exactly when it meets `Ok`, the runs that keep it throughout are those whose
steps all meet `Ok`. -/
theorem stepsOk_iff {Inv : S → Prop} {Ok : S → A → Prop}
    (hstep : ∀ {s a s'}, Inv s → step s a = some s' → (Inv s' ↔ Ok s a))
    (hnone : ∀ {s a}, Inv s → step s a = none → Ok s a) {as : List A} :
    ∀ {s : S}, Inv s → ((∀ as' s', as' <+: as → runFrom step s as' = some s' → Inv s') ↔
      StepsOk step Ok s as) := by
  induction as with
  | nil =>
    intro s hi
    refine ⟨fun _ => trivial, fun _ as' s' hp hr => ?_⟩
    obtain rfl := List.prefix_nil.1 hp
    obtain rfl : s = s' := by simpa using hr
    exact hi
  | cons a as ih =>
    intro s hi
    cases ht : step s a with
    | none =>
      refine ⟨fun _ => ⟨hnone hi ht, fun t h => ?_⟩, fun _ as' s' hp hr => ?_⟩
      · rw [ht] at h
        cases h
      · -- only the empty prefix is possible
        cases as' with
        | nil =>
          obtain rfl : s = s' := by simpa using hr
          exact hi
        | cons b as' =>
          obtain ⟨rfl, -⟩ := List.cons_prefix_cons.1 hp
          obtain ⟨t, h, -⟩ := runFrom_cons.1 hr
          rw [ht] at h
          cases h
    | some t =>
      constructor
      · intro hall
        have hit : Inv t := hall [a] t (by simp) (runFrom_cons.2 ⟨t, ht, rfl⟩)
        refine ⟨(hstep hi ht).1 hit, fun t' ht' => ?_⟩
        obtain rfl : t = t' := by simpa [ht] using ht'
        exact (ih hit).1 fun as' s' hp hr =>
          hall (a :: as') s' (by simpa using hp) (runFrom_cons.2 ⟨t, ht, hr⟩)
      · rintro ⟨hok, hrest⟩ as' s' hp hr
        cases as' with
        | nil =>
          obtain rfl : s = s' := by simpa using hr
          exact hi
        | cons b as' =>
          obtain ⟨rfl, hrestp⟩ := List.cons_prefix_cons.1 hp
          obtain ⟨t', ht', hr⟩ := runFrom_cons.1 hr
          exact (ih ((hstep hi ht').2 hok)).2 (hrest t' ht') as' s' hrestp hr

/-- A violation that no later step undoes shows at the end: a run ends well exactly when it began so and
all its steps met `Ok`. -/
theorem runFrom_good_iff {Inv Good : S → Prop} {Ok : S → A → Prop}
    (hstep : ∀ {s a s'}, Inv s → step s a = some s' → Inv s' ∧ (Good s' ↔ Good s ∧ Ok s a)) :
    ∀ {as : List A} {s t : S}, Inv s → runFrom step s as = some t →
      (Good t ↔ Good s ∧ StepsOk step Ok s as)
  | [], s, t, _, hr => by
    obtain rfl : s = t := by simpa using hr
    exact (and_iff_left trivial).symm
  | a :: as, s, t, hi, hr => by
    obtain ⟨u, hu, hr⟩ := runFrom_cons.1 hr
    obtain ⟨hiu, hgood⟩ := hstep hi hu
    rw [runFrom_good_iff hstep hiu hr, hgood, and_assoc]
    refine and_congr_right fun _ => and_congr_right fun _ => ⟨fun h u' hu' => ?_, fun h => h u hu⟩
    obtain rfl : u = u' := Option.some.inj (hu.symm.trans hu')
    exact h

theorem stepsOk_congr {Inv : S → Prop} {Ok Ok' : S → A → Prop}
    (hstep : ∀ {s a s'}, Inv s → step s a = some s' → Inv s')
    (h : ∀ {s a}, Inv s → (Ok s a ↔ Ok' s a)) {as : List A} :
    ∀ {s : S}, Inv s → (StepsOk step Ok s as ↔ StepsOk step Ok' s as) := by
  induction as with
  | nil => exact fun _ => Iff.rfl
  | cons a as ih =>
    intro s hi
    refine and_congr (h hi) (forall_congr' fun s' => ?_)
    exact forall_congr' fun hs => ih (hstep hi hs)

theorem stepsOk_and {Ok Ok' : S → A → Prop} {as : List A} :
    ∀ {s : S}, StepsOk step (fun s a => Ok s a ∧ Ok' s a) s as ↔
      StepsOk step Ok s as ∧ StepsOk step Ok' s as := by
  induction as with
  | nil => exact fun {_} => (and_iff_left trivial).symm
  | cons a as ih =>
    intro s
    constructor
    · rintro ⟨⟨h, h'⟩, hrest⟩
      exact ⟨⟨h, fun t ht => (ih.1 (hrest t ht)).1⟩, h', fun t ht => (ih.1 (hrest t ht)).2⟩
    · rintro ⟨⟨h, hrest⟩, h', hrest'⟩
      exact ⟨⟨h, h'⟩, fun t ht => ih.2 ⟨hrest t ht, hrest' t ht⟩⟩

theorem stepsOk_of_mem {Ok : S → A → Prop} {as : List A} (h : ∀ a ∈ as, ∀ s, Ok s a) (s : S) :
    StepsOk step Ok s as := by
  induction as generalizing s with
  | nil => trivial
  | cons a as ih =>
    exact ⟨h a (List.mem_cons_self ..) s, fun s' _ =>
      ih (fun b hb => h b (List.mem_cons_of_mem _ hb)) s'⟩

/-- **The induction over a run.** -/
theorem runFrom_invariant {Inv : S → Prop}
    (hstep : ∀ {s a s'}, Inv s → step s a = some s' → Inv s') {as : List A} {s s' : S}
    (hi : Inv s) (hr : runFrom step s as = some s') : Inv s' := by
  have hstep' : ∀ {s a s'}, Inv s → (fun (_ : S) (_ : A) => True) s a → step s a = some s' →
      Inv s' := fun hi _ hs => hstep hi hs
  exact runFrom_invariant_of hstep' hi (stepsOk_of_mem (fun _ _ _ => trivial) s) hr

/-- The induction over a run of actions `f b`, for a loop that takes its items `bs` one by one. -/
theorem runFrom_map_invariant {B : Type} {Inv : S → Prop} {f : B → A} {bs : List B}
    (hstep : ∀ {s s'}, ∀ b ∈ bs, Inv s → step s (f b) = some s' → Inv s') {s s' : S}
    (hi : Inv s) (hr : runFrom step s (bs.map f) = some s') : Inv s' := by
  refine @runFrom_invariant_of _ _ step Inv (fun _ a => ∃ b ∈ bs, f b = a) ?_ _ _ _ hi ?_ hr
  · rintro s a s' hi ⟨b, hb, rfl⟩ hs
    exact hstep b hb hi hs
  · exact stepsOk_of_mem (fun a ha _ => List.mem_map.1 ha) s

/-- **The induction over two runs** of the same actions, each of which meets `Ok`. -/
theorem runFrom_related {R : S → S → Prop} {Ok : A → Prop}
    (hstep : ∀ {s t a}, R s t → Ok a → Option.Rel R (step s a) (step t a)) :
    ∀ {as : List A} {s t : S}, R s t → (∀ a ∈ as, Ok a) →
      Option.Rel R (runFrom step s as) (runFrom step t as)
  | [], _, _, hr, _ => .some hr
  | a :: as, s, t, hr, hok => by
    have ha := hstep hr (hok a (List.mem_cons_self ..))
    simp only [runFrom]
    generalize step s a = x at ha ⊢
    generalize step t a = y at ha ⊢
    cases ha with
    | none => exact .none
    | some hr' => exact runFrom_related hstep hr' fun b hb => hok b (List.mem_cons_of_mem _ hb)

theorem Reaches.invariant {Inv : S → Prop}
    (hstep : ∀ {s a s'}, Inv s → step s a = some s' → Inv s') {s s' : S} (hi : Inv s)
    (hr : Reaches step s s') : Inv s' := by
  obtain ⟨as, hr⟩ := hr
  exact runFrom_invariant hstep hi hr

end Lib
