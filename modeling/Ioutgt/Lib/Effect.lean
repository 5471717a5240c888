import Ioutgt.Lib.Prog

/-!
# Programs that act on a world

The calls of a program change a world: `act op r s s'` says that the call `op`, answered with `r`,
may take the world from `s` to `s'`. It is a relation, so an environment that leaves part of the
world open is one that allows more.

* `Acts`: the runs of a program in a world, finished or cut off anywhere;
* `into I Q p s`: from `s`, every world that is reached meets `I`, every result meets `Q` together
  with the world it is returned in, and there is no panic;
* `into_bind`, `into_check`, `into_ask`: the rules; `into_sound`: what it says of runs.
-/

namespace Lib.Prog

variable {Op : Type} {Res : Op → Type} {α β σ : Type}

/-- Runs in a world: from where, with which outcome (`none` if cut off), to where. -/
inductive Acts (act : (op : Op) → Res op → σ → σ → Prop) :
    Prog Op Res α → σ → Option (Except Panic α) → σ → Prop where
  | cut (p s) : Acts act p s none s
  | ret (a s) : Acts act (ret a) s (some (.ok a)) s
  | abort (p s) : Acts act (abort p) s (some (.error p)) s
  | call {op k r s s' out t} (hact : act op r s s') (rest : Acts act (k r) s' out t) :
    Acts act (call op k) s out t

variable (act : (op : Op) → Res op → σ → σ → Prop) (I : σ → Prop)

/-- Every world reached meets `I`, every result `Q`, and there is no panic. -/
def into (Q : α → σ → Prop) : Prog Op Res α → σ → Prop
  | ret a, s => Q a s
  | abort _, _ => False
  | call op k, s => ∀ r s', act op r s s' → I s' ∧ (k r).into Q s'

variable {act I} {Q Q' : α → σ → Prop} {p : Prog Op Res α} {s : σ}

theorem into_bind {f : α → Prog Op Res β} {Q : β → σ → Prop} :
    (p >>= f).into act I Q s ↔ p.into act I (fun a s => (f a).into act I Q s) s := by
  induction p generalizing s with
  | ret a => exact .rfl
  | abort p => exact .rfl
  | call op k ih =>
    exact forall_congr' fun r => forall_congr' fun s' => forall_congr' fun _ =>
      and_congr_right fun _ => ih r

theorem into_check {x : Checked Empty α} {a : α} (hx : x = .ok a) (ha : Q a s) :
    (check x : Prog Op Res α).into act I Q s := by
  rw [hx]
  exact ha

theorem into_ask {op : Op} {Q : Res op → σ → Prop} :
    (ask op : Prog Op Res (Res op)).into act I Q s ↔ ∀ r s', act op r s s' → I s' ∧ Q r s' := .rfl

theorem into_sound {out : Option (Except Panic α)} {t : σ} (h : p.into act I Q s) (hs : I s)
    (hr : Acts act p s out t) : I t ∧ ∀ e, out = some e → ∃ a, e = .ok a ∧ Q a t := by
  induction hr with
  | cut p s => exact ⟨hs, by simp⟩
  | ret a s => exact ⟨hs, fun e he => ⟨a, (Option.some.inj he).symm, h⟩⟩
  | abort p s => exact h.elim
  | call hact _ ih =>
    obtain ⟨hs', hk⟩ := h _ _ hact
    exact ih hk hs'

end Lib.Prog
