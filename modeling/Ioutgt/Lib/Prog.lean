import Mathlib.Data.List.Basic
import Ioutgt.Lib.Checked

/-!
# Programs that call out

A program is a tree of calls: it ends with a value, panics, or makes a call and goes on with
whatever the environment answers. The answer's type depends on the call, which is where an
assumption about the environment is stated.

* `wp P Q p`: every call `p` makes meets `P` and every value it ends with meets `Q`; it does not
  panic.
* `wp_bind`, `wp_check`, `wp_ask`: the rules.
* `wp_sound`: what `wp` says of the calls of a run, finished or cut off anywhere.
* `Only P p`: every call `p` can make meets `P`; `only_bind`, `only_sound`: its rules.
-/

namespace Lib

inductive Prog (Op : Type) (Res : Op → Type) (α : Type) : Type where
  | ret (a : α)
  | abort (p : Panic)
  | call (op : Op) (k : Res op → Prog Op Res α)

namespace Prog

variable {Op : Type} {Res : Op → Type} {α β : Type}

protected def bind : Prog Op Res α → (α → Prog Op Res β) → Prog Op Res β
  | ret a, f => f a
  | abort p, _ => abort p
  | call op k, f => call op fun r => (k r).bind f

instance : Monad (Prog Op Res) where
  pure := ret
  bind := Prog.bind

def ask (op : Op) : Prog Op Res (Res op) := call op ret

def ofChecked {ε : Type} : Checked ε α → Prog Op Res (Except ε α)
  | .ok a => ret (.ok a)
  | .error (.err e) => ret (.error e)
  | .error (.panic p) => abort p

def check : Checked Empty α → Prog Op Res α
  | .ok a => ret a
  | .error (.err e) => e.elim
  | .error (.panic p) => abort p

/-- The same program with its calls embedded in others. -/
def lift {Op' : Type} {Res' : Op' → Type} (f : Op → Op') (g : (op : Op) → Res' (f op) → Res op) :
    Prog Op Res α → Prog Op' Res' α
  | ret a => ret a
  | abort p => abort p
  | call op k => call (f op) fun r => (k (g op r)).lift f g

/-- Every call meets `P`, every result meets `Q`, and there is no panic. -/
def wp (P : Op → Prop) (Q : α → Prop) : Prog Op Res α → Prop
  | ret a => Q a
  | abort _ => False
  | call op k => P op ∧ ∀ r, (k r).wp P Q

/-- The calls of a run of the program, in order, with how it ended; `none` if it is still waiting
or was dropped. -/
inductive Runs : Prog Op Res α → List Op → Option (Except Panic α) → Prop where
  | cut (p) : Runs p [] none
  | ret (a) : Runs (ret a) [] (some (.ok a))
  | abort (p) : Runs (abort p) [] (some (.error p))
  | call {op k r ops out} : Runs (k r) ops out → Runs (call op k) (op :: ops) out

variable {P : Op → Prop} {Q : α → Prop}

theorem wp_bind {p : Prog Op Res α} {f : α → Prog Op Res β} {Q : β → Prop} :
    (p >>= f).wp P Q ↔ p.wp P fun a => (f a).wp P Q := by
  induction p with
  | ret a => exact .rfl
  | abort p => exact .rfl
  | call op k ih => exact and_congr_right fun _ => forall_congr' ih

theorem wp_check {x : Checked Empty α} {a : α} {f : α → Prog Op Res β} {Q : β → Prop}
    (hx : x = .ok a) (h : (f a).wp P Q) : (check x >>= f).wp P Q := by
  rw [hx]
  exact h

theorem wp_ask {op : Op} {Q : Res op → Prop} :
    (ask op : Prog Op Res (Res op)).wp P Q ↔ P op ∧ ∀ r, Q r := .rfl

theorem wp_sound {p : Prog Op Res α} {ops : List Op} {out : Option (Except Panic α)}
    (h : p.wp P Q) (hr : p.Runs ops out) :
    (∀ op ∈ ops, P op) ∧ ∀ e, out = some e → ∃ a, e = .ok a ∧ Q a := by
  induction hr with
  | cut p => exact ⟨by simp, by simp⟩
  | ret a => exact ⟨by simp, fun e he => ⟨a, (Option.some.inj he).symm, h⟩⟩
  | abort p => exact h.elim
  | call hr ih =>
    obtain ⟨hops, hout⟩ := ih (h.2 _)
    exact ⟨List.forall_mem_cons.2 ⟨h.1, hops⟩, hout⟩

/-- Every call that can be made meets `P`. -/
def Only (P : Op → Prop) : Prog Op Res α → Prop
  | ret _ => True
  | abort _ => True
  | call op k => P op ∧ ∀ r, (k r).Only P

theorem only_bind {p : Prog Op Res α} {f : α → Prog Op Res β} (hp : p.Only P)
    (hf : ∀ a, (f a).Only P) : (p >>= f).Only P := by
  induction p with
  | ret a => exact hf a
  | abort p => trivial
  | call op k ih => exact ⟨hp.1, fun r => ih r (hp.2 r)⟩

theorem only_ofChecked {ε : Type} (x : Checked ε α) : (ofChecked x : Prog Op Res _).Only P := by
  rcases x with (e | p) | a <;> trivial

theorem only_check (x : Checked Empty α) : (check x : Prog Op Res α).Only P := by
  rcases x with (e | p) | a
  · exact e.elim
  · trivial
  · trivial

theorem only_sound {p : Prog Op Res α} {ops : List Op} {out : Option (Except Panic α)}
    (h : p.Only P) (hr : p.Runs ops out) : ∀ op ∈ ops, P op := by
  induction hr with
  | cut p => simp
  | ret a => simp
  | abort p => simp
  | call hr ih => exact List.forall_mem_cons.2 ⟨h.1, ih (h.2 _)⟩

end Prog

end Lib
