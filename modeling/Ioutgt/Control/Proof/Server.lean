import Ioutgt.Control.Server
import Ioutgt.Control.Proof.Namespaces

/-!
# Which tables satisfy the validation

The ids in a table are checked on both ways into it. The sizes are checked on one of them, and on
neither against the width of the size in bytes.

* `Built.sized_iff`: a store has the size that was asked for if and only if that is not 0 and below
  2^44 MiB;
* `handle_ok`: an accepted request is a change of one subsystem's table;
* `Everywhere.step`: what every change of a table keeps, every table keeps that is in force, cached
  or given to a command;
* `made_step`: so ids are valid and every store is one that was built, in every run;
* `allFit_step`: whether every size fits depends on the accepted request only.
-/

namespace Ioutgt.Control.Server

open Lib Ioutgt.Core

variable {b : Built} {p : Port} {nqn : String}

/-! ## Sizes -/

/-- The size, if there is one, is positive and its bytes can be counted in 64 bits. -/
def BackendConfig.Fits (c : BackendConfig) : Prop :=
  ∀ sizeMb, c.sizeMb? = some sizeMb → 0 < sizeMb.toNat ∧ sizeMb.toNat < 2 ^ 44

/-- The store has the capacity that was asked for: 2048 blocks of 512 bytes a MiB, and some. -/
def Built.Sized (b : Built) : Prop :=
  ∀ sizeMb, b.config.sizeMb? = some sizeMb → b.backend.geometry.blockShift = 9 ∧
    0 < b.backend.geometry.nrBlocks ∧ b.backend.geometry.nrBlocks = sizeMb.toNat * 2048

def Built.Genuine (b : Built) : Prop :=
  ∃ openFile, buildBackend openFile b.config = .ok b.backend

theorem megabytes_nrBlocks (sizeMb : UInt64) :
    (megabytes sizeMb).nrBlocks = sizeMb.toNat * 2 ^ 20 % 2 ^ 64 / 2 ^ 9 := by
  show (sizeMb <<< 20).toNat >>> 9 = _
  rw [UInt64.toNat_shiftLeft, Nat.shiftRight_eq_div_pow, Nat.shiftLeft_eq]
  rfl

/-- Shifting by 20 loses the bits above 2^44. -/
theorem megabytes_sized_iff (sizeMb : UInt64) :
    (0 < (megabytes sizeMb).nrBlocks ∧ (megabytes sizeMb).nrBlocks = sizeMb.toNat * 2048) ↔
      0 < sizeMb.toNat ∧ sizeMb.toNat < 2 ^ 44 := by
  rw [megabytes_nrBlocks]
  omega

theorem Built.Genuine.geometry (h : b.Genuine) {sizeMb : UInt64}
    (hs : b.config.sizeMb? = some sizeMb) : b.backend.geometry = megabytes sizeMb := by
  obtain ⟨config, backend⟩ := b
  obtain ⟨openFile, hb⟩ := h
  cases config with
  | memory mb =>
    cases hs
    cases hb
    rfl
  | null mb =>
    cases hs
    cases hb
    rfl
  | file path => cases hs

theorem Built.sized_iff (h : b.Genuine) : b.Sized ↔ b.config.Fits := by
  refine forall_congr' fun sizeMb => forall_congr' fun hs => ?_
  rw [h.geometry hs]
  exact (and_iff_right rfl).trans (megabytes_sized_iff sizeMb)

/-! ## Requests -/

theorem Port.mem_of_subsystem {s : Subsystem Built} (h : p.subsystem nqn = some s) :
    (nqn, s) ∈ p.subsystems := by
  obtain ⟨e, he, rfl⟩ := Option.map_eq_some_iff.1 h
  have hkey : e.1 = nqn := by simpa using List.find?_some he
  exact hkey ▸ List.mem_of_find?_eq_some he

theorem Port.mem_set {s' : Subsystem Built} {e : String × Subsystem Built}
    (h : e ∈ (p.set nqn s').subsystems) : e ∈ p.subsystems ∨ e = (nqn, s') := by
  obtain ⟨e', he', rfl⟩ := List.mem_map.1 h
  split
  · exact .inr rfl
  · exact .inl he'

theorem Port.set_mem {s s' : Subsystem Built} (h : (nqn, s) ∈ p.subsystems) :
    (nqn, s') ∈ (p.set nqn s').subsystems :=
  List.mem_map.2 ⟨(nqn, s), h, if_pos (beq_self_eq_true nqn)⟩

theorem resolve_mem {subsysnqn : Option String} {e : String × Subsystem Built}
    (h : resolve p subsysnqn = .ok e) : e ∈ p.subsystems := by
  unfold resolve at h
  split at h
  · split at h
    · rename_i hs
      cases h
      exact Port.mem_of_subsystem hs
    · cases h
  · split at h
    · rename_i hp
      cases h
      rw [hp]
      exact List.mem_singleton_self _
    · cases h

theorem handle_ok {openFile : OpenFile} {p' : Port} {r : Request} (h : handle openFile p r = .ok p') :
    ∃ e ∈ p.subsystems, ∃ s', p' = p.set e.1 s' ∧
      ((∃ subsysnqn nsid config backend, r = .addNamespace subsysnqn nsid config ∧
          buildBackend openFile config = .ok backend ∧
          Control.handle e.2 (.addNamespace ⟨nsid, ⟨config, backend⟩⟩) = .ok s') ∨
        ∃ subsysnqn nsid, r = .removeNamespace subsysnqn nsid ∧
          Control.handle e.2 (.removeNamespace nsid) = .ok s') := by
  cases r with
  | addNamespace subsysnqn nsid config =>
    obtain ⟨e, he, h⟩ := except_bind_eq_ok.1 h
    by_cases hres : reserved nsid
    · rw [if_pos hres] at h
      cases h
    · rw [if_neg hres] at h
      obtain ⟨-, -, h⟩ := except_bind_eq_ok.1 h
      obtain ⟨backend, hb, h⟩ := except_bind_eq_ok.1 h
      obtain ⟨s', hs, h⟩ := except_bind_eq_ok.1 h
      cases h
      refine ⟨e, resolve_mem he, s', rfl, .inl ⟨subsysnqn, nsid, config, backend, rfl, hb, ?_⟩⟩
      rw [Control.handle, if_neg hres]
      exact hs
  | removeNamespace subsysnqn nsid =>
    obtain ⟨e, he, h⟩ := except_bind_eq_ok.1 h
    obtain ⟨s', hs, h⟩ := except_bind_eq_ok.1 h
    cases h
    exact ⟨e, resolve_mem he, s', rfl, .inr ⟨subsysnqn, nsid, rfl, hs⟩⟩

/-! ## Tables -/

structure Validated (t : NsMap Built) : Prop where
  ids : Valid t
  sized : ∀ ns ∈ t, ns.backend.Sized

/-- What holds of every table: its ids are valid and its stores were built as they say. -/
structure Made (t : NsMap Built) : Prop where
  ids : Valid t
  genuine : ∀ ns ∈ t, ns.backend.Genuine

def AllFit (t : NsMap Built) : Prop := ∀ ns ∈ t, ns.backend.config.Fits

theorem Made.validated_iff {t : NsMap Built} (h : Made t) : Validated t ↔ AllFit t :=
  ⟨fun hv ns hns => (Built.sized_iff (h.genuine ns hns)).1 (hv.sized ns hns),
    fun hf => ⟨h.ids, fun ns hns => (Built.sized_iff (h.genuine ns hns)).2 (hf ns hns)⟩⟩

section Port

variable {openFile : OpenFile} {p p' : Port} {r : Request}

theorem made_handle (hp : ∀ e ∈ p.subsystems, Made e.2.namespaces)
    (h : handle openFile p r = .ok p') : ∀ e ∈ p'.subsystems, Made e.2.namespaces := by
  obtain ⟨e₀, he₀, s', rfl, hchange⟩ := handle_ok h
  intro e he
  rcases Port.mem_set he with he | rfl
  · exact hp e he
  · rcases hchange with ⟨_, nsid, config, backend, -, hb, hs⟩ | ⟨_, nsid, -, hs⟩
    · refine ⟨(hp e₀ he₀).ids.handle hs, ?_⟩
      obtain ⟨ns, hns, -, -, htable⟩ | ⟨_, hr, -⟩ := Control.handle_ok hs
      · cases hns
        rw [htable]
        exact List.forall_mem_cons.2 ⟨⟨openFile, hb⟩, (hp e₀ he₀).genuine⟩
      · cases hr
    · refine ⟨(hp e₀ he₀).ids.handle hs, ?_⟩
      obtain ⟨_, hr, -⟩ | ⟨_, -, htable⟩ := Control.handle_ok hs
      · cases hr
      · rw [htable]
        exact fun ns hns => (hp e₀ he₀).genuine ns (List.mem_of_mem_filter hns)

def Request.Fits : Request → Prop
  | .addNamespace _ _ config => config.Fits
  | .removeNamespace .. => True

theorem allFit_handle (hp : ∀ e ∈ p.subsystems, AllFit e.2.namespaces)
    (h : handle openFile p r = .ok p') :
    (∀ e ∈ p'.subsystems, AllFit e.2.namespaces) ↔ r.Fits := by
  obtain ⟨e₀, he₀, s', rfl, hchange⟩ := handle_ok h
  have hset : (∀ e ∈ (p.set e₀.1 s').subsystems, AllFit e.2.namespaces) ↔ AllFit s'.namespaces := by
    refine ⟨fun hall => hall _ (Port.set_mem he₀), fun hs' e he => ?_⟩
    rcases Port.mem_set he with he | rfl
    · exact hp e he
    · exact hs'
  rw [hset]
  rcases hchange with ⟨_, nsid, config, backend, rfl, -, hs⟩ | ⟨_, nsid, rfl, hs⟩
  · obtain ⟨ns, hns, -, -, htable⟩ | ⟨_, hr, -⟩ := Control.handle_ok hs
    · cases hns
      rw [htable]
      exact List.forall_mem_cons.trans (and_iff_left (hp e₀ he₀))
    · cases hr
  · obtain ⟨_, hr, -⟩ | ⟨_, -, htable⟩ := Control.handle_ok hs
    · cases hr
    · rw [htable]
      exact iff_of_true (fun ns hns => hp e₀ he₀ ns (List.mem_of_mem_filter hns)) trivial

end Port

/-! ## The first tables -/

section Build

variable {openFile : OpenFile}

theorem validateNamespaces_ok {nqn : String} : ∀ {nss : List (NamespaceConfig BackendConfig)}
    {seen : List UInt32}, validateNamespaces nqn seen nss = .ok () →
    ∀ ns ∈ nss, reserved ns.nsid = false
  | [], _, _, _, hns => by cases hns
  | n :: nss, seen, h, ns, hns => by
    unfold validateNamespaces at h
    split at h
    · cases h
    · rename_i hres
      split at h
      · cases h
      · split at h
        · cases h
        · rcases List.mem_cons.1 hns with rfl | hns
          · simpa using hres
          · exact validateNamespaces_ok h ns hns

theorem Made.insertNs {t : NsMap Built} {nsid : UInt32} (h : Made t) (hres : reserved nsid = false)
    (hb : b.Genuine) : Made (insertNs t ⟨nsid.toNat, b⟩) := by
  have hid := not_reserved hres
  have hsub : (t.filter (·.nsid != nsid.toNat)).Sublist t := List.filter_sublist
  refine ⟨⟨List.nodup_cons.2 ⟨fun hm => ?_, h.ids.nodup.sublist (hsub.map _)⟩, ?_, ?_⟩, ?_⟩
  · obtain ⟨ns, hns, heq⟩ := List.mem_map.1 hm
    have := (List.mem_filter.1 hns).2
    simp [heq] at this
  · exact List.forall_mem_cons.2 ⟨hid.1, fun ns hns => h.ids.pos ns (hsub.subset hns)⟩
  · exact List.forall_mem_cons.2 ⟨hid.2, fun ns hns => h.ids.lt ns (hsub.subset hns)⟩
  · exact List.forall_mem_cons.2 ⟨hb, fun ns hns => h.genuine ns (hsub.subset hns)⟩

theorem made_nil : Made [] := ⟨⟨List.nodup_nil, by simp, by simp⟩, by simp⟩

theorem buildTable_made : ∀ {nss : List (NamespaceConfig BackendConfig)} {t t' : NsMap Built},
    (∀ ns ∈ nss, reserved ns.nsid = false) → Made t → buildTable openFile t nss = .ok t' → Made t'
  | [], t, t', _, ht, h => by
    cases h
    exact ht
  | ns :: nss, t, t', hres, ht, h => by
    obtain ⟨hns, hres⟩ := List.forall_mem_cons.1 hres
    obtain ⟨backend, hb, h⟩ := except_bind_eq_ok.1 h
    exact buildTable_made hres (ht.insertNs hns ⟨openFile, hb⟩) h

theorem buildPort_made : ∀ {specs : List SubsystemConfig} {p p' : Port},
    validateEach specs = .ok () → (∀ e ∈ p.subsystems, Made e.2.namespaces) →
    buildPort openFile p specs = .ok p' → ∀ e ∈ p'.subsystems, Made e.2.namespaces
  | [], p, p', _, hp, h => by
    cases h
    exact hp
  | spec :: specs, p, p', hv, hp, h => by
    obtain ⟨t, ht, h⟩ := except_bind_eq_ok.1 h
    unfold validateEach at hv
    split at hv
    · cases hv
    · obtain ⟨_, hns, hv⟩ := except_bind_eq_ok.1 hv
      have hmade : Made t := buildTable_made (validateNamespaces_ok hns) made_nil ht
      refine buildPort_made hv ?_ h
      exact List.forall_mem_cons.2 ⟨hmade, fun e he => hp e (List.mem_of_mem_filter he)⟩

end Build

/-! ## Runs -/

/-- Every table that is in force, cached by a queue or was given to a command. -/
structure Everywhere (P : NsMap Built → Prop) (s : State) : Prop where
  inForce : ∀ e ∈ s.port.subsystems, P e.2.namespaces
  cached : ∀ queue t, (s.caches queue).map = some t → P t
  observed : ∀ t ∈ s.observed, P t

section Runs

variable {P Q : NsMap Built → Prop} {subsysOf : Nat → String} {s s' : State} {a : Action}

theorem everywhere_init (hp : ∀ e ∈ p.subsystems, P e.2.namespaces) : Everywhere P (.init p) :=
  ⟨hp, fun _ _ h => (nomatch h), fun _ h => (nomatch h)⟩

/-- One action: only an accepted request brings a table about, and commands are given tables that
are in force or were cached. -/
theorem Everywhere.step (h : Everywhere P s) (hs : s.step subsysOf a = some s')
    (hrequest : ∀ r openFile port, a = .request r openFile →
      handle openFile s.port r = .ok port → ∀ e ∈ port.subsystems, P e.2.namespaces) :
    Everywhere P s' := by
  unfold State.step at hs
  split at hs
  · split at hs
    · rename_i hr
      cases hs
      exact ⟨hrequest _ _ _ rfl hr, h.cached, h.observed⟩
    · cases hs
      exact h
  · obtain ⟨subsys, hsub, rfl⟩ := Option.map_eq_some_iff.1 hs
    exact ⟨h.inForce, h.cached,
      List.forall_mem_cons.2 ⟨h.inForce _ (Port.mem_of_subsystem hsub), h.observed⟩⟩
  · rename_i queue generation
    obtain ⟨subsys, hsub, rfl⟩ := Option.map_eq_some_iff.1 hs
    have hnow := h.inForce _ (Port.mem_of_subsystem hsub)
    have hgot : P ((s.caches queue).get generation subsys.namespaces).2 ∧
        ∀ t, ((s.caches queue).get generation subsys.namespaces).1.map = some t → P t := by
      obtain ⟨htable, hmap⟩ | ⟨hmap, hsame⟩ :=
        NsCache.get_cases (s.caches queue) generation subsys.namespaces
      · rw [htable, hmap]
        exact ⟨hnow, fun t ht => Option.some.inj ht ▸ hnow⟩
      · rw [hsame]
        exact ⟨h.cached queue _ hmap, h.cached queue⟩
    refine ⟨h.inForce, fun q t ht => ?_, List.forall_mem_cons.2 ⟨hgot.1, h.observed⟩⟩
    by_cases hq : q = queue
    · subst hq
      exact hgot.2 t (by simpa using ht)
    · exact h.cached q t (by simpa [hq] using ht)

theorem made_step (h : Everywhere Made s) (hs : s.step subsysOf a = some s') : Everywhere Made s' :=
  h.step hs fun _ _ _ _ hr => made_handle h.inForce hr

/-- The action, if it is a request that is accepted, asks for a size that fits. -/
def Action.Fits (s : State) : Action → Prop
  | .request r openFile => (∃ port, handle openFile s.port r = .ok port) → r.Fits
  | _ => True

theorem allFit_step (h : Everywhere AllFit s) (hs : s.step subsysOf a = some s') :
    Everywhere AllFit s' ↔ a.Fits s := by
  constructor
  · intro h'
    cases a with
    | request r openFile =>
      rintro ⟨port, hr⟩
      unfold State.step at hs
      dsimp only at hs
      rw [hr] at hs
      cases hs
      exact (allFit_handle h.inForce hr).1 h'.inForce
    | snapshot nqn => trivial
    | get queue generation => trivial
  · intro hfits
    refine h.step hs fun r openFile port ha hr => ?_
    subst ha
    exact (allFit_handle h.inForce hr).2 (hfits ⟨port, hr⟩)

theorem fits_of_none (hs : s.step subsysOf a = none) : a.Fits s := by
  cases a with
  | request r openFile =>
    unfold State.step at hs
    dsimp only at hs
    split at hs <;> cases hs
  | snapshot nqn => trivial
  | get queue generation => trivial

theorem Everywhere.validated_iff (h : Everywhere Made s) :
    Everywhere Validated s ↔ Everywhere AllFit s :=
  ⟨fun hv => ⟨fun e he => (h.inForce e he).validated_iff.1 (hv.inForce e he),
      fun q t ht => (h.cached q t ht).validated_iff.1 (hv.cached q t ht),
      fun t ht => (h.observed t ht).validated_iff.1 (hv.observed t ht)⟩,
    fun hf => ⟨fun e he => (h.inForce e he).validated_iff.2 (hf.inForce e he),
      fun q t ht => (h.cached q t ht).validated_iff.2 (hf.cached q t ht),
      fun t ht => (h.observed t ht).validated_iff.2 (hf.observed t ht)⟩⟩

end Runs

/-- **Which runs keep every table valid.** Take any configuration that passes the validation, any
requests, and any commands in between: the tables in force, cached and given to commands all satisfy
the validation throughout if and only if the sizes in the configuration and in every request that is
accepted are positive and below 2^44 MiB. -/
theorem tables_validated_iff {configs : List SubsystemConfig} {openFile : OpenFile} {p : Port}
    (hvalid : validateSubsystems configs = .ok ())
    (hbuild : buildPort openFile ⟨[]⟩ configs = .ok p) (subsysOf : Nat → String)
    (actions : List Action) :
    (∀ done s, done <+: actions → runFrom (State.step subsysOf) (.init p) done = some s →
        Everywhere Validated s) ↔
      (∀ e ∈ p.subsystems, AllFit e.2.namespaces) ∧
        StepsOk (State.step subsysOf) Action.Fits (.init p) actions := by
  have hmade : ∀ e ∈ p.subsystems, Made e.2.namespaces := by
    unfold validateSubsystems at hvalid
    split at hvalid
    · cases hvalid
    · exact buildPort_made hvalid (fun e he => by cases he) hbuild
  have hrun : ∀ {done s}, runFrom (State.step subsysOf) (.init p) done = some s →
      (Everywhere Validated s ↔ Everywhere AllFit s) := fun hr =>
    (@runFrom_invariant _ _ (State.step subsysOf) (Everywhere Made) made_step _ _ _
      (everywhere_init hmade) hr).validated_iff
  have hfits := fun hall => @stepsOk_iff _ _ (State.step subsysOf) (Everywhere AllFit) Action.Fits
    allFit_step (fun _ => fits_of_none) actions (.init p) (everywhere_init hall)
  constructor
  · intro h
    have hfirst : Everywhere AllFit (.init p) :=
      (@hrun [] _ rfl).1 (h [] _ List.nil_prefix rfl)
    exact ⟨hfirst.inForce, (hfits hfirst.inForce).1 fun done s hp hr => (hrun hr).1 (h done s hp hr)⟩
  · rintro ⟨hall, hsteps⟩ done s hp hr
    exact (hrun hr).2 ((hfits hall).2 hsteps done s hp hr)

private def noFile : OpenFile := fun _ => .error "No such file or directory"

private def oneNamespace (backend : BackendConfig) : List SubsystemConfig :=
  [⟨"nqn.2026-06.io.ioutgt:a", [⟨1, backend⟩]⟩]

private def capacities (p : Port) : List (List (Nat × Nat)) :=
  p.subsystems.map fun e => e.2.namespaces.map fun ns =>
    (ns.nsid, ns.backend.backend.geometry.nrBlocks)

/-- A request is accepted that asks for a store of no size; and a configuration that asks for 2^44
MiB, of which nothing is left. -/
theorem empty_stores_in_force :
    validateSubsystems (oneNamespace (.memory 64)) = .ok () ∧
    validateSubsystems (oneNamespace (.null 0x100000000000)) = .ok () ∧
    (buildPort noFile ⟨[]⟩ (oneNamespace (.memory 64)) >>= fun p =>
      capacities <$> handle noFile p (.addNamespace none 2 (.memory 0))) =
        .ok [[(2, 0), (1, 131072)]] ∧
    capacities <$> buildPort noFile ⟨[]⟩ (oneNamespace (.null 0x100000000000)) = .ok [[(1, 0)]] :=
  ⟨rfl, rfl, rfl, rfl⟩

theorem tables_validated_one_mib :
    ∃ p, buildPort noFile ⟨[]⟩ (oneNamespace (.memory 64)) = .ok p ∧
      ∀ done s, done <+: [.request (.addNamespace none 2 (.null 1)) noFile, .get 0 1,
          .request (.removeNamespace none 2) noFile] →
        runFrom (State.step fun _ => "nqn.2026-06.io.ioutgt:a") (.init p) done = some s →
        Everywhere Validated s := by
  refine ⟨_, rfl, (@tables_validated_iff (oneNamespace (.memory 64)) noFile _ rfl rfl _ _).2
    ⟨?_, fun _ => ?_, fun _ _ => ⟨trivial, fun _ _ => ⟨fun _ => trivial, fun _ _ => trivial⟩⟩⟩⟩
  · intro e he ns hns sizeMb hsize
    obtain rfl := List.mem_singleton.1 he
    obtain rfl := List.mem_singleton.1 hns
    cases hsize
    decide
  · intro sizeMb hsize
    cases hsize
    decide

end Ioutgt.Control.Server
