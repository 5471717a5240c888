import Mathlib.Data.List.Nodup
import Ioutgt.Control.Namespaces

/-!
# Every namespace table in force is valid

* `handle_ok`: what an accepted request does.
* `Valid.step`: every request keeps what the validation of the configuration asks.
* `valid_run`: so every table that is ever in force has it.
-/

namespace Ioutgt.Control

open Lib Ioutgt.Core

variable {B : Type} {nss : List (NamespaceConfig B)} {s s' : Subsystem B} {r : Request B}

structure Valid (t : NsMap B) : Prop where
  nodup : (t.map (·.nsid)).Nodup
  pos : ∀ ns ∈ t, 0 < ns.nsid
  lt : ∀ ns ∈ t, ns.nsid < 2 ^ 32 - 1

theorem not_reserved {nsid : UInt32} (h : reserved nsid = false) :
    0 < nsid.toNat ∧ nsid.toNat < 2 ^ 32 - 1 := by
  have hlt := nsid.toNat_lt
  simp only [reserved, Bool.or_eq_false_iff, beq_eq_false_iff_ne, ne_eq] at h
  have h0 : nsid.toNat ≠ 0 := fun h' => h.1 (UInt32.toNat_inj.1 h')
  have h1 : nsid.toNat ≠ 0xFFFFFFFF := fun h' => h.2 (UInt32.toNat_inj.1 h')
  omega

theorem validate_spec {seen : List UInt32} (h : validate seen nss = .ok ()) :
    (∀ ns ∈ nss, reserved ns.nsid = false ∧ ns.nsid ∉ seen) ∧ (nss.map (·.nsid)).Nodup := by
  induction nss generalizing seen with
  | nil => exact ⟨by simp, .nil⟩
  | cons ns rest ih =>
    unfold validate at h
    by_cases hres : reserved ns.nsid
    · rw [if_pos hres] at h; cases h
    · rw [if_neg hres] at h
      by_cases hseen : seen.contains ns.nsid
      · rw [if_pos hseen] at h; cases h
      · rw [if_neg hseen] at h
        obtain ⟨hall, hnd⟩ := ih h
        refine ⟨?_, ?_⟩
        · rintro ns' (_ | ⟨_, hns'⟩)
          · exact ⟨by simpa using hres, by simpa using hseen⟩
          · exact ⟨(hall ns' hns').1, fun hm => (hall ns' hns').2 (List.mem_cons_of_mem _ hm)⟩
        · rw [List.map_cons, List.nodup_cons]
          refine ⟨fun hm => ?_, hnd⟩
          obtain ⟨ns', hns', heq⟩ := List.mem_map.1 hm
          exact (hall ns' hns').2 (heq ▸ List.mem_cons_self)

theorem configured_valid (h : validate [] nss = .ok ()) : Valid (configured nss).namespaces := by
  obtain ⟨hall, hnd⟩ := validate_spec h
  have hids : (nss.map NamespaceConfig.toNamespace).map (·.nsid) =
      (nss.map (·.nsid)).map UInt32.toNat := by simp [NamespaceConfig.toNamespace]
  refine ⟨?_, ?_, ?_⟩
  · exact hids ▸ hnd.map fun _ _ => UInt32.toNat_inj.1
  all_goals
    intro ns hns
    obtain ⟨c, hc, rfl⟩ := List.mem_map.1 hns
  · exact (not_reserved (hall c hc).1).1
  · exact (not_reserved (hall c hc).1).2

theorem get_isSome_iff {t : NsMap B} {nsid : Nat} :
    (t.get nsid).isSome ↔ nsid ∈ t.map (·.nsid) := by
  simp [NsMap.get]

theorem handle_ok (h : handle s r = .ok s') :
    (∃ ns, r = .addNamespace ns ∧ reserved ns.nsid = false ∧
      (s.namespaces.get ns.toNamespace.nsid).isSome = false ∧
      s'.namespaces = ns.toNamespace :: s.namespaces) ∨
    ∃ nsid, r = .removeNamespace nsid ∧
      s'.namespaces = s.namespaces.filter (·.nsid != nsid.toNat) := by
  cases r with
  | addNamespace ns =>
    rw [handle] at h
    by_cases hres : reserved ns.nsid
    · rw [if_pos hres] at h; cases h
    · rw [if_neg hres, Subsystem.addNamespace] at h
      by_cases hin : (s.namespaces.get ns.toNamespace.nsid).isSome
      · rw [if_pos hin] at h; cases h
      · rw [if_neg hin] at h
        obtain rfl := Except.ok.inj h
        exact .inl ⟨ns, rfl, Bool.eq_false_of_not_eq_true hres, Bool.eq_false_of_not_eq_true hin,
          rfl⟩
  | removeNamespace nsid =>
    rw [handle, Subsystem.removeNamespace] at h
    by_cases hin : (s.namespaces.get nsid.toNat).isNone
    · rw [if_pos hin] at h; cases h
    · rw [if_neg hin] at h
      obtain rfl := Except.ok.inj h
      exact .inr ⟨nsid, rfl, rfl⟩

theorem Valid.handle (h : Valid s.namespaces) (hr : handle s r = .ok s') : Valid s'.namespaces := by
  obtain ⟨ns, -, hres, hin, hs⟩ | ⟨nsid, -, hs⟩ := handle_ok hr
  · rw [hs]
    have hok := not_reserved hres
    refine ⟨List.nodup_cons.2 ⟨fun hm => ?_, h.nodup⟩, ?_, ?_⟩
    · have htaken : (s.namespaces.get ns.toNamespace.nsid).isSome := get_isSome_iff.2 hm
      rw [hin] at htaken
      cases htaken
    · exact List.forall_mem_cons.2 ⟨hok.1, h.pos⟩
    · exact List.forall_mem_cons.2 ⟨hok.2, h.lt⟩
  · rw [hs]
    have hsub : (s.namespaces.filter (·.nsid != nsid.toNat)).Sublist s.namespaces :=
      List.filter_sublist
    exact ⟨h.nodup.sublist (hsub.map _), fun ns hns => h.pos ns (hsub.subset hns),
      fun ns hns => h.lt ns (hsub.subset hns)⟩

theorem Valid.step (h : Valid s.namespaces) (hs : step s r = some s') : Valid s'.namespaces := by
  rw [Control.step] at hs
  cases hr : Control.handle s r with
  | error e =>
    rw [hr] at hs
    obtain rfl := Option.some.inj hs
    exact h
  | ok t =>
    rw [hr] at hs
    obtain rfl := Option.some.inj hs
    exact h.handle hr

theorem valid_run (h : validate [] nss = .ok ()) {rs : List (Request B)}
    (hr : runFrom step (configured nss) rs = some s) : Valid s.namespaces :=
  @runFrom_invariant _ _ step (fun s => Valid s.namespaces) Valid.step rs _ _ (configured_valid h)
    hr

end Ioutgt.Control
