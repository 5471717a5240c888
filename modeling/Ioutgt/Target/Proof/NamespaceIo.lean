import Ioutgt.Target.NamespaceIo

/-!
# Which file a disk operation addresses

The memo of `fixed_file_index` is keyed by descriptor number and never cleared, so it is right
only as long as a number keeps naming the file it named when it was registered.

* `Reactor.FixedOk`, `fixedFileIndex_spec`: what one call of `fixed_file_index` does.
* `Inv`, `Inv.step`: every number a live backend holds is either unknown to a thread, known as not
  registered, or known under the slot of that backend's own file. Every step keeps this, provided
  no backend is opened on a number some thread still maps to a slot (`NumberFresh`).
* `disk_ops_address_own_file`: under that condition every disk operation of every run addresses
  the file of its own backend.
* `reused_number_addresses_removed_file`: a run in which a namespace is removed and another added
  on the same number, and the second one's IO reaches the first one's file.
-/

namespace Ioutgt.Uring.Reactor

variable {r : Reactor} {fd i : Nat}

/-! ## The fixed-file table -/

/-- No slot is both free and remembered, and no free slot is listed twice. -/
structure FixedOk (r : Reactor) : Prop where
  nodup : r.freeFiles.Nodup
  used : ∀ fd idx, r.cached fd = some (some idx) → idx ∉ r.freeFiles

theorem FixedOk.new (filesSupported : Bool) : (Reactor.new filesSupported).FixedOk := by
  refine ⟨?_, by simp [Reactor.new, cached]⟩
  cases filesSupported
  · simp [Reactor.new]
  · simpa [Reactor.new] using List.nodup_range

structure Indexed (r : Reactor) (fds : Nat → Option Nat) (fd : Nat) (r' : Reactor)
    (answer : Option Nat) : Prop where
  ok : r'.FixedOk
  cached : r'.cached fd = some answer
  other : ∀ fd', fd' ≠ fd → r'.cached fd' = r.cached fd'
  free : ∀ idx, idx ∈ r'.freeFiles → idx ∈ r.freeFiles
  table : ∀ idx, idx ∉ r.freeFiles → r'.table idx = r.table idx
  fresh : r.cached fd = none → ∀ idx, answer = some idx → r'.table idx = fds fd
  known : ∀ a, r.cached fd = some a → answer = a

theorem cached_append (r : Reactor) (cache : List (Nat × Option Nat)) (fd : Nat)
    (answer : Option Nat) (hc : r.fileIndexCache = cache ++ [(fd, answer)])
    (hnone : (cache.find? (·.1 == fd)) = none) (fd' : Nat) :
    r.cached fd' = if fd' = fd then some answer else (cache.find? (·.1 == fd')).map (·.2) := by
  rw [Reactor.cached, hc, List.find?_append]
  by_cases h : fd' = fd
  · subst h
    simp [hnone]
  · have hne : (fd == fd') = false := by simpa using fun e => h e.symm
    simp [h, hne]

theorem registerFile_spec (h : r.FixedOk) (fds : Nat → Option Nat) (accepts : Bool) (fd : Nat) :
    let q := r.registerFile fds accepts fd
    q.1.fileIndexCache = r.fileIndexCache ∧ q.1.freeFiles.Nodup ∧
      (∀ idx, idx ∈ q.1.freeFiles → idx ∈ r.freeFiles) ∧
      (∀ idx, idx ∉ r.freeFiles → q.1.table idx = r.table idx) ∧
      ∀ idx, q.2 = some idx → q.1.table idx = fds fd ∧ idx ∉ q.1.freeFiles := by
  have hnd := h.nodup
  unfold registerFile
  split
  · exact ⟨rfl, hnd, fun _ hi => hi, fun _ _ => rfl, by simp⟩
  · rename_i idx rest hfree
    rw [hfree] at hnd
    split
    · refine ⟨rfl, hnd.of_cons, ?_, ?_, ?_⟩
      · intro i hi
        rw [hfree]
        exact List.mem_cons_of_mem _ hi
      · intro i hi
        have hne : i ≠ idx := by
          rintro rfl
          exact hi (by rw [hfree]; exact List.mem_cons_self)
        simp [hne]
      · rintro i hi
        obtain rfl : idx = i := by simpa using hi
        exact ⟨by simp, (List.nodup_cons.1 hnd).1⟩
    · exact ⟨rfl, h.nodup, fun _ hi => hi, fun _ _ => rfl, by simp⟩

/-- **One call of `fixed_file_index`.** -/
theorem fixedFileIndex_spec (h : r.FixedOk) (fds : Nat → Option Nat) (accepts : Bool) (fd : Nat) :
    Indexed r fds fd (r.fixedFileIndex fds accepts fd).1 (r.fixedFileIndex fds accepts fd).2 := by
  unfold fixedFileIndex
  cases hc : r.cached fd with
  | some answer =>
    refine ⟨h, hc, fun _ _ => rfl, fun _ hi => hi, fun _ _ => rfl, ?_, ?_⟩
    · simp [hc]
    · intro a ha
      simpa [hc] using ha
  | none =>
    obtain ⟨hcache, hnd, hfree, htab, hnew⟩ := registerFile_spec h fds accepts fd
    dsimp only
    generalize r.registerFile fds accepts fd = q at *
    obtain ⟨r1, answer⟩ := q
    dsimp only at hcache hnd hfree htab hnew ⊢
    have hnone : r.fileIndexCache.find? (·.1 == fd) = none := by
      simpa [Reactor.cached] using hc
    have hget := cached_append { r1 with fileIndexCache := r1.fileIndexCache ++ [(fd, answer)] }
      r.fileIndexCache fd answer (by rw [← hcache]) hnone
    refine ⟨⟨hnd, ?_⟩, ?_, ?_, hfree, htab, fun _ idx hi => (hnew idx hi).1, ?_⟩
    · intro fd' idx hx
      rw [hget] at hx
      split at hx
      · exact (hnew idx (by simpa using hx)).2
      · exact fun hm => h.used fd' idx hx (hfree idx hm)
    · rw [hget, if_pos rfl]
    · intro fd' hne
      rw [hget, if_neg hne]
      rfl
    · intro a ha
      simp [hc] at ha

end Ioutgt.Uring.Reactor

namespace Ioutgt.Target

open Lib Ioutgt.Core Ioutgt.Uring Ioutgt.Backend

/-! ## What is held -/

section
variable {L : Layout} {s s' : State} {b : FileBackend} {subsys fd nsid i : Nat} {c : Command}

theorem State.mem_held : b ∈ s.held L ↔
    b ∈ s.pending ∨
      (∃ i < L.nSubsystems, ∃ ns ∈ (s.subsystems i).namespaces, ns.backend = b) ∨
      (∃ q < L.nQueues, ∃ t, (s.caches q).map = some t ∧ ∃ ns ∈ t, ns.backend = b) ∨
      ∃ c ∈ s.commands, b ∈ c.held := by
  have hcache : ∀ q, b ∈ ((s.caches q).map.getD []).map (·.backend) ↔
      ∃ t, (s.caches q).map = some t ∧ ∃ ns ∈ t, ns.backend = b := by
    intro q
    cases (s.caches q).map <;> simp
  simp only [State.held, List.mem_append, List.mem_flatMap, List.mem_range, hcache, List.mem_map,
    or_assoc]

/-! ## The invariant -/

/-- A running command is on a queue of the layout, its namespace is in the snapshot it holds, and
a descriptor it has resolved addresses its backend's file. -/
structure CmdOk (L : Layout) (s : State) (c : Command) : Prop where
  queue : c.queue < L.nQueues ∧ L.subsysOf c.queue < L.nSubsystems
  running : ∀ t ns, c.stage = .running t ns → ns ∈ t
  transfer : ∀ t ns target, c.stage = .transfer t ns target → ns ∈ t ∧
    target.addressed s.fds (s.reactors (L.threadOf c.queue)) = some ns.backend.file ∧
    (∀ fd, target = .raw fd → fd = ns.backend.fd) ∧
    ∀ idx, target = .fixed idx → idx ∉ (s.reactors (L.threadOf c.queue)).freeFiles

structure Inv (L : Layout) (s : State) : Prop where
  live : ∀ b ∈ s.held L, s.fds b.fd = some b.file
  fixed : ∀ t, (s.reactors t).FixedOk
  cached : ∀ t, ∀ b ∈ s.held L, ∀ idx, (s.reactors t).cached b.fd = some (some idx) →
    (s.reactors t).table idx = some b.file
  commands : ∀ c ∈ s.commands, CmdOk L s c
  issued : ∀ op ∈ s.issued, op.addressed = some op.backend.file

theorem Inv.init (L : Layout) : Inv L (State.init L) where
  live b hb := by simp [State.mem_held, State.init, Subsystem.new] at hb
  fixed t := .new _
  cached t b hb := by simp [State.mem_held, State.init, Subsystem.new] at hb
  commands := by simp [State.init]
  issued := by simp [State.init]

/-- A step that opens, closes and registers nothing keeps the invariant when it holds on to
nothing new. -/
theorem Inv.of_same (h : Inv L s) (hf : s'.fds = s.fds) (hr : s'.reactors = s.reactors)
    (hh : ∀ b ∈ s'.held L, b ∈ s.held L) (hc : ∀ c ∈ s'.commands, CmdOk L s c)
    (ho : ∀ op ∈ s'.issued, op.addressed = some op.backend.file) : Inv L s' where
  live b hb := by rw [hf]; exact h.live b (hh b hb)
  fixed t := by rw [hr]; exact h.fixed t
  cached t b hb := by rw [hr]; exact h.cached t b (hh b hb)
  commands c hm := by
    have hk := hc c hm
    refine ⟨hk.queue, hk.running, ?_⟩
    rw [hf, hr]
    exact hk.transfer
  issued := ho

theorem Inv.setTable (h : Inv L s) {pending : List FileBackend} {t : Subsystem FileBackend}
    (hp : ∀ b ∈ pending, b ∈ s.pending)
    (ht : ∀ ns ∈ t.namespaces, ns.backend ∈ s.pending ∨ ns ∈ (s.subsystems subsys).namespaces) :
    Inv L { s with pending, subsystems := Function.update s.subsystems subsys t } := by
  refine h.of_same rfl rfl (fun x hx => ?_) h.commands h.issued
  rw [State.mem_held] at hx ⊢
  rcases hx with hx | ⟨i, hi, ns, hns, rfl⟩ | hx
  · exact .inl (hp x hx)
  · by_cases he : i = subsys
    · subst he
      simp only [Function.update_self] at hns
      exact (ht ns hns).imp_right fun hns => .inl ⟨i, hi, ns, hns, rfl⟩
    · simp only [Function.update_of_ne he] at hns
      exact .inr (.inl ⟨i, hi, ns, hns, rfl⟩)
  · exact .inr (.inr hx)

theorem Inv.setCommands (h : Inv L s) {commands : List Command}
    (hc : ∀ c ∈ commands, c ∈ s.commands ∨ CmdOk L s c ∧ ∀ b ∈ c.held, b ∈ s.held L) :
    Inv L { s with commands } := by
  refine h.of_same rfl rfl (fun x hx => ?_) (fun c hm => ?_) h.issued
  · rw [State.mem_held] at hx
    rcases hx with hx | hx | hx | ⟨c, hm, hx⟩
    · exact State.mem_held.2 (.inl hx)
    · exact State.mem_held.2 (.inr (.inl hx))
    · exact State.mem_held.2 (.inr (.inr (.inl hx)))
    · rcases hc c hm with hm | ⟨-, hheld⟩
      · exact State.mem_held.2 (.inr (.inr (.inr ⟨c, hm, hx⟩)))
      · exact hheld x hx
  · rcases hc c hm with hm | ⟨hok, -⟩
    · exact h.commands c hm
    · exact hok

theorem CmdOk.held (h : CmdOk L s c) (hm : c ∈ s.commands) {t : NsMap FileBackend}
    {ns : Namespace FileBackend}
    (hs : c.stage = .running t ns ∨ ∃ target, c.stage = .transfer t ns target) :
    ns.backend ∈ s.held L := by
  refine State.mem_held.2 (.inr (.inr (.inr ⟨c, hm, ?_⟩)))
  rcases hs with hs | ⟨target, hs⟩
  · simpa [Command.held, hs] using ⟨ns, h.running t ns hs, rfl⟩
  · simpa [Command.held, hs] using ⟨ns, (h.transfer t ns target hs).1, rfl⟩

/-! ## Opening and closing -/

/-- The condition on a step: a backend is not opened on a number that some thread still maps to a
slot of its fixed-file table. -/
def NumberFresh (s : State) : Action → Prop
  | .openBackend fd => ∀ t idx, (s.reactors t).cached fd ≠ some (some idx)
  | _ => True

theorem CmdOk.openFd {f : Option Nat} (h : CmdOk L s c) (hfd : s.fds fd = none) :
    CmdOk L { s with fds := Function.update s.fds fd f } c := by
  refine ⟨h.queue, h.running, fun t ns target hs => ?_⟩
  obtain ⟨hns, haddr, hraw, hfix⟩ := h.transfer t ns target hs
  refine ⟨hns, ?_, hraw, hfix⟩
  cases target with
  | fixed idx => exact haddr
  | raw fd' =>
    have hne : fd' ≠ fd := by
      rintro rfl
      simp [BackendFd.addressed, hfd] at haddr
    simpa [BackendFd.addressed, hne] using haddr

theorem Inv.openOther (h : Inv L s) (hfd : s.fds fd = none) :
    Inv L { s with fds := Function.update s.fds fd (some s.nextFile)
                   nextFile := s.nextFile + 1 } := by
  refine ⟨fun b hb => ?_, h.fixed, h.cached, fun c hc => ?_, h.issued⟩
  · have hb' := h.live b hb
    have hne : b.fd ≠ fd := by
      intro he
      rw [he, hfd] at hb'
      cases hb'
    simpa [hne] using hb'
  · have := (h.commands c hc).openFd (f := some s.nextFile) hfd
    exact ⟨this.queue, this.running, this.transfer⟩

theorem Inv.openBackend (h : Inv L s) (hfd : s.fds fd = none)
    (hfresh : ∀ t idx, (s.reactors t).cached fd ≠ some (some idx)) :
    Inv L { s with fds := Function.update s.fds fd (some s.nextFile)
                   nextFile := s.nextFile + 1
                   pending := ⟨fd, s.nextFile⟩ :: s.pending } := by
  have ho := h.openOther hfd
  have hheld : ∀ b, b ∈ State.held L { s with fds := Function.update s.fds fd (some s.nextFile)
                                              nextFile := s.nextFile + 1
                                              pending := ⟨fd, s.nextFile⟩ :: s.pending } →
      b = ⟨fd, s.nextFile⟩ ∨ b ∈ s.held L := by
    intro b hb
    simpa only [State.mem_held, List.mem_cons, or_assoc] using hb
  refine ⟨fun b hb => ?_, h.fixed, fun t b hb idx hi => ?_, fun c hc => ?_, h.issued⟩
  · rcases hheld b hb with rfl | hb
    · simp
    · exact ho.live b hb
  · rcases hheld b hb with rfl | hb
    · exact absurd hi (hfresh t idx)
    · exact h.cached t b hb idx hi
  · have := ho.commands c hc
    exact ⟨this.queue, this.running, this.transfer⟩

theorem Inv.close (h : Inv L s) (hfree : ¬∃ b ∈ s.held L, b.fd = fd) :
    Inv L { s with fds := Function.update s.fds fd none } := by
  have hne : ∀ b ∈ s.held L, b.fd ≠ fd := fun b hb he => hfree ⟨b, hb, he⟩
  refine ⟨fun b hb => ?_, h.fixed, h.cached, fun c hc => ?_, h.issued⟩
  · simpa [hne b hb] using h.live b hb
  · have hk := h.commands c hc
    refine ⟨hk.queue, hk.running, fun t ns target hs => ?_⟩
    obtain ⟨hns, haddr, hraw, hfix⟩ := hk.transfer t ns target hs
    refine ⟨hns, ?_, hraw, hfix⟩
    cases target with
    | fixed idx => exact haddr
    | raw fd' =>
      have := hne _ (hk.held hc (.inr ⟨_, hs⟩))
      rw [← hraw fd' rfl] at this
      simpa [BackendFd.addressed, this] using haddr

/-! ## The control plane -/

theorem mem_addNamespace {B : Type} {s t : Subsystem B} {ns : Namespace B}
    (h : s.addNamespace ns = .ok t) {x : Namespace B} (hx : x ∈ t.namespaces) :
    x = ns ∨ x ∈ s.namespaces := by
  unfold Subsystem.addNamespace at h
  split at h
  · cases h
  · cases h
    exact List.mem_cons.1 hx

theorem mem_removeNamespace {B : Type} {s t : Subsystem B} (h : s.removeNamespace nsid = .ok t)
    {x : Namespace B} (hx : x ∈ t.namespaces) : x ∈ s.namespaces := by
  unfold Subsystem.removeNamespace at h
  split at h
  · cases h
  · cases h
    exact (List.mem_filter.1 hx).1

theorem Inv.addNamespace (h : Inv L s) (hs : s.step L (.addNamespace subsys nsid b) = some s') :
    Inv L s' := by
  obtain ⟨⟨-, hb⟩, hs⟩ := Option.ite_none_right_eq_some.1 hs
  have hpend : ∀ x ∈ s.pending.erase b, x ∈ s.pending := fun x hx => List.mem_of_mem_erase hx
  dsimp only at hs
  split at hs
  · rename_i t ht
    cases hs
    refine h.setTable hpend fun ns hns => ?_
    rcases mem_addNamespace ht hns with rfl | hns
    · exact .inl hb
    · exact .inr hns
  · cases hs
    refine h.of_same rfl rfl (fun x hx => ?_) h.commands h.issued
    rw [State.mem_held] at hx ⊢
    exact hx.imp_left (hpend x)

theorem Inv.removeNamespace (h : Inv L s) (hs : s.step L (.removeNamespace subsys nsid) = some s') :
    Inv L s' := by
  obtain ⟨-, hs⟩ := Option.ite_none_right_eq_some.1 hs
  split at hs
  · rename_i t ht
    cases hs
    exact h.setTable (fun _ hb => hb) fun ns hns => .inr (mem_removeNamespace ht hns)
  · cases hs
    exact h

/-! ## The slot tasks -/

theorem Inv.begin (h : Inv L s) {queue : Nat} (hs : s.step L (.begin queue nsid) = some s') :
    Inv L s' := by
  obtain ⟨hq, rfl⟩ := of_guard hs
  refine h.setCommands fun c hc => (List.mem_append.1 hc).imp_right fun hc => ?_
  obtain rfl := List.mem_singleton.1 hc
  exact ⟨⟨hq, by simp, by simp⟩, by simp [Command.held]⟩

theorem Inv.finish (h : Inv L s) (i : Nat) :
    Inv L { s with commands := s.commands.eraseIdx i } :=
  h.setCommands fun _ hc => .inl (List.mem_of_mem_eraseIdx hc)

theorem Inv.refresh (h : Inv L s) {q : Nat} (hq : q < L.nQueues) (hs : L.subsysOf q < L.nSubsystems)
    (generation : Nat) :
    Inv L { s with
      caches := (Function.update s.caches q
        ((s.caches q).get generation (s.subsystems (L.subsysOf q)).namespaces).1) } := by
  refine h.of_same rfl rfl (fun x hx => ?_) h.commands h.issued
  rw [State.mem_held] at hx
  rcases hx with hx | hx | ⟨q', hq', t, ht, ns, hns, rfl⟩ | hx
  · exact State.mem_held.2 (.inl hx)
  · exact State.mem_held.2 (.inr (.inl hx))
  · by_cases he : q' = q
    · subst he
      simp only [Function.update_self] at ht
      rcases (s.caches q').get_cases generation (s.subsystems (L.subsysOf q')).namespaces with
        ⟨-, hm⟩ | ⟨-, hm⟩
      · obtain rfl : (s.subsystems (L.subsysOf q')).namespaces = t := by simpa [hm] using ht
        exact State.mem_held.2 (.inr (.inl ⟨_, hs, ns, hns, rfl⟩))
      · rw [hm] at ht
        exact State.mem_held.2 (.inr (.inr (.inl ⟨q', hq', t, ht, ns, hns, rfl⟩)))
    · simp only [Function.update_of_ne he] at ht
      exact State.mem_held.2 (.inr (.inr (.inl ⟨q', hq', t, ht, ns, hns, rfl⟩)))
  · exact State.mem_held.2 (.inr (.inr (.inr hx)))

theorem Inv.setStage (h : Inv L s) {stage : Stage} (hok : CmdOk L s { c with stage })
    (hheld : ∀ b ∈ Command.held { c with stage }, b ∈ s.held L) : Inv L (s.setStage i c stage) := by
  refine h.setCommands fun x hx => (List.mem_or_eq_of_mem_set hx).imp_right ?_
  rintro rfl
  exact ⟨hok, hheld⟩

theorem Inv.lookup (h : Inv L s) (hs : s.step L (.lookup i) = some s') : Inv L s' := by
  simp only [State.step] at hs
  split at hs
  swap
  · cases hs
  rename_i c hc
  have hk := h.commands c (List.mem_of_getElem? hc)
  split at hs
  swap
  · cases hs
  rename_i generation hst
  have hr := h.refresh hk.queue.1 hk.queue.2 generation
  split at hs
  · rename_i ns hns
    cases hs
    have hmem : ns ∈ ((s.caches c.queue).get generation
        (s.subsystems (L.subsysOf c.queue)).namespaces).2 := List.mem_of_find?_eq_some hns
    refine hr.setStage ⟨hk.queue, ?_, by simp⟩ ?_
    · rintro t ns' he
      cases he
      exact hmem
    · -- the snapshot handed out is the one the cache now holds
      intro b hb
      obtain ⟨x, hx, rfl⟩ := List.mem_map.1 hb
      refine State.mem_held.2 (.inr (.inr (.inl ⟨c.queue, hk.queue.1, _, ?_, x, hx, rfl⟩)))
      rcases (s.caches c.queue).get_cases generation
        (s.subsystems (L.subsysOf c.queue)).namespaces with ⟨he, hm⟩ | ⟨he, hm⟩
      · simpa [he] using hm
      · simp only [Function.update_self, hm]
        exact he
  · cases hs
    exact hr.finish i

theorem Inv.register (h : Inv L s) {t : Nat} (hb : b ∈ s.held L) {answer : Option Nat}
    (hi : Reactor.Indexed (s.reactors t) s.fds b.fd r answer) :
    Inv L { s with reactors := Function.update s.reactors t r } := by
  have htable : ∀ idx, idx ∉ (s.reactors t).freeFiles → r.table idx = (s.reactors t).table idx :=
    hi.table
  refine ⟨h.live, fun t' => ?_, fun t' b' hb' idx hc => ?_, fun c hc => ?_, h.issued⟩
  · by_cases ht : t' = t
    · subst ht
      simpa using hi.ok
    · simpa [ht] using h.fixed t'
  · by_cases ht : t' = t
    swap
    · simp only [Function.update_of_ne ht] at hc ⊢
      exact h.cached t' b' hb' idx hc
    subst ht
    simp only [Function.update_self] at hc ⊢
    -- an answer remembered before is right by the invariant, and its slot is not touched
    have hold : (s.reactors t').cached b'.fd = some (some idx) → r.table idx = some b'.file := by
      intro ho
      rw [htable idx ((h.fixed t').used _ _ ho)]
      exact h.cached t' b' hb' idx ho
    by_cases hfd : b'.fd = b.fd
    · have hfile : some b'.file = some b.file := by
        rw [← h.live b' hb', ← h.live b hb, hfd]
      rw [hfd, hi.cached] at hc
      cases hk : (s.reactors t').cached b.fd with
      | none => rw [hi.fresh hk idx (by simpa using hc), hfile, h.live b hb]
      | some a =>
        apply hold
        rw [hfd, hk, ← hi.known a hk]
        exact hc
    · rw [hi.other _ hfd] at hc
      exact hold hc
  · have hk := h.commands c hc
    refine ⟨hk.queue, hk.running, fun tb ns target hs => ?_⟩
    obtain ⟨hns, haddr, hraw, hfix⟩ := hk.transfer tb ns target hs
    by_cases ht : L.threadOf c.queue = t
    · rw [ht] at haddr hfix ⊢
      simp only [Function.update_self]
      refine ⟨hns, ?_, hraw, fun idx he hm => hfix idx he (hi.free idx hm)⟩
      cases target with
      | raw fd => exact haddr
      | fixed idx => simpa [BackendFd.addressed, htable idx (hfix idx rfl)] using haddr
    · simp only [Function.update_of_ne ht]
      exact ⟨hns, haddr, hraw, hfix⟩

theorem Inv.backendFd (h : Inv L s) {accepts : Bool}
    (hs : s.step L (.backendFd i accepts) = some s') : Inv L s' := by
  simp only [State.step] at hs
  split at hs
  swap
  · cases hs
  rename_i c hc
  have hm := List.mem_of_getElem? hc
  have hk := h.commands c hm
  -- both stages of the match run the same code on the same snapshot and namespace
  have key : ∀ t ns, (c.stage = .running t ns ∨ ∃ target, c.stage = .transfer t ns target) →
      Inv L (State.setStage { s with reactors := (Function.update s.reactors (L.threadOf c.queue)
        (ns.backend.backendFd (s.reactors (L.threadOf c.queue)) s.fds accepts).1) } i c
        (.transfer t ns (ns.backend.backendFd (s.reactors (L.threadOf c.queue)) s.fds
          accepts).2)) := by
    intro t ns hst
    have hns : ns ∈ t := by
      rcases hst with hst | ⟨target, hst⟩
      · exact hk.running t ns hst
      · exact (hk.transfer t ns target hst).1
    have hheld := hk.held hm hst
    have hi := Reactor.fixedFileIndex_spec (h.fixed (L.threadOf c.queue)) s.fds accepts ns.backend.fd
    have hr := h.register hheld hi
    unfold FileBackend.backendFd
    generalize hq : (s.reactors (L.threadOf c.queue)).fixedFileIndex s.fds accepts ns.backend.fd = q
      at hi hr
    obtain ⟨r, answer⟩ := q
    have hcheld : ∀ b ∈ t.map (·.backend), b ∈ s.held L := by
      intro b hb
      refine State.mem_held.2 (.inr (.inr (.inr ⟨c, hm, ?_⟩)))
      rcases hst with hst | ⟨target, hst⟩ <;> simpa [Command.held, hst] using hb
    have hfile : s.fds ns.backend.fd = some ns.backend.file := h.live _ hheld
    cases answer with
    | none =>
      refine hr.setStage ⟨hk.queue, by simp, ?_⟩ hcheld
      rintro t' ns' target he
      cases he
      exact ⟨hns, hfile, by rintro fd he; cases he; rfl, by simp⟩
    | some idx =>
      refine hr.setStage ⟨hk.queue, by simp, ?_⟩ hcheld
      rintro t' ns' target he
      cases he
      have hcached := hr.cached (L.threadOf c.queue) ns.backend hheld idx (by simpa using hi.cached)
      have hused := (hr.fixed (L.threadOf c.queue)).used ns.backend.fd idx (by simpa using hi.cached)
      exact ⟨hns, hcached, by simp, by rintro j he; cases he; exact hused⟩
  split at hs
  · rename_i t ns hst
    cases hs
    exact key t ns (.inl hst)
  · rename_i t ns target hst
    cases hs
    exact key t ns (.inr ⟨target, hst⟩)
  · cases hs

theorem Inv.issue (h : Inv L s) (hs : s.step L (.issue i) = some s') : Inv L s' := by
  simp only [State.step] at hs
  split at hs
  swap
  · cases hs
  rename_i c hc
  have hk := h.commands c (List.mem_of_getElem? hc)
  split at hs
  swap
  · cases hs
  rename_i t ns target hst
  cases hs
  refine h.of_same rfl rfl (fun _ hb => hb) h.commands fun op hop => ?_
  rcases List.mem_cons.1 hop with rfl | hop
  · exact (hk.transfer t ns target hst).2.1
  · exact h.issued op hop

/-- **One step** keeps the invariant, unless it opens a backend on a number that is still in use
in some thread's memo. -/
theorem Inv.step {a : Action} (h : Inv L s) (hok : NumberFresh s a) (hs : s.step L a = some s') :
    Inv L s' := by
  cases a with
  | openOther fd =>
    simp only [State.step, State.openFd] at hs
    split at hs
    · cases hs
    · rename_i hfd
      cases hs
      exact h.openOther hfd
  | openBackend fd =>
    simp only [State.step, State.openFd] at hs
    split at hs
    · cases hs
    · rename_i hfd
      cases hs
      exact h.openBackend hfd hok
  | addNamespace subsys nsid b => exact h.addNamespace hs
  | removeNamespace subsys nsid => exact h.removeNamespace hs
  | begin queue nsid => exact h.begin hs
  | lookup i => exact h.lookup hs
  | backendFd i accepts => exact h.backendFd hs
  | issue i => exact h.issue hs
  | finish i =>
    obtain ⟨-, rfl⟩ := of_guard hs
    exact h.finish i
  | close fd =>
    obtain ⟨hfree, hs⟩ := Option.ite_none_left_eq_some.1 hs
    cases hs
    exact h.close hfree

/-- **Disk operations stay with their namespace.** In every run in which no backend is opened on a
descriptor number that a queue thread still maps to a fixed-file slot, every disk operation
addresses the file its own namespace's backend opened. -/
theorem disk_ops_address_own_file {as : List Action} {s : State}
    (hok : StepsOk (State.step L) NumberFresh (State.init L) as)
    (hr : runFrom (State.step L) (State.init L) as = some s) :
    ∀ op ∈ s.issued, op.addressed = some op.backend.file :=
  (runFrom_invariant_of (fun hi hf hs => Inv.step hi hf hs) (Inv.init L) hok hr).issued

end

/-! ## Concrete runs -/

/-- One subsystem, one IO queue, one queue thread with a fixed-file table. -/
def oneQueue : Layout where
  nSubsystems := 1
  nQueues := 1
  subsysOf := fun _ => 0
  threadOf := fun _ => 0
  filesSupported := fun _ => true

/-- Two files are opened; a namespace of the first is added and removed again, and one of the second is
added in its place. Each gets one disk operation. -/
def replaceRun : List Action :=
  [.openBackend 3, .openBackend 4, .addNamespace 0 1 ⟨3, 0⟩, .begin 0 1, .lookup 0, .backendFd 0 true,
    .issue 0, .finish 0, .removeNamespace 0 1, .begin 0 1, .lookup 0, .close 3,
    .addNamespace 0 1 ⟨4, 1⟩, .begin 0 1, .lookup 0, .backendFd 0 true, .issue 0]

theorem disk_ops_address_own_file_replaced :
    ∃ s, runFrom (State.step oneQueue) (State.init oneQueue) replaceRun = some s ∧
      s.issued.map (·.backend) = [⟨4, 1⟩, ⟨3, 0⟩] ∧
      ∀ op ∈ s.issued, op.addressed = some op.backend.file := by
  have hok : StepsOk (State.step oneQueue) NumberFresh (State.init oneQueue) replaceRun := by
    refine ⟨fun t idx => ?_, fun s hs => ⟨fun t idx => ?_, fun s' _ => stepsOk_of_mem ?_ s'⟩⟩
    · simp [State.init, Reactor.new, Reactor.cached]
    · cases hs
      simp [State.init, Reactor.new, Reactor.cached]
    · simp [NumberFresh]
  have hrun : (runFrom (State.step oneQueue) (State.init oneQueue) replaceRun).map
      (·.issued.map (·.backend)) = some [⟨4, 1⟩, ⟨3, 0⟩] := by decide
  obtain ⟨s, hs, hops⟩ := Option.map_eq_some_iff.1 hrun
  exact ⟨s, hs, hops, disk_ops_address_own_file hok hs⟩

def ioRun : List Action :=
  [.openBackend 3, .addNamespace 0 1 ⟨3, 0⟩, .begin 0 1, .lookup 0, .backendFd 0 true, .issue 0]

/-- `ioRun`; then the namespace is removed, a command finds it gone (which drops the last
snapshot that held the backend), the descriptor is closed, a second namespace is opened on the
same number and gets one disk operation. -/
def reuseRun : List Action :=
  ioRun ++ [.finish 0, .removeNamespace 0 1, .begin 0 1, .lookup 0, .close 3,
    .openBackend 3, .addNamespace 0 1 ⟨3, 1⟩, .begin 0 1, .lookup 0, .backendFd 0 true, .issue 0]

/-- The second namespace's operation goes to file 0, the file of the namespace that was removed. -/
theorem reused_number_addresses_removed_file :
    ∃ s, runFrom (State.step oneQueue) (State.init oneQueue) reuseRun = some s ∧
      s.issued = [⟨⟨3, 1⟩, some 0⟩, ⟨⟨3, 0⟩, some 0⟩] := by
  have hrun : (runFrom (State.step oneQueue) (State.init oneQueue) reuseRun).map (·.issued)
      = some [⟨⟨3, 1⟩, some 0⟩, ⟨⟨3, 0⟩, some 0⟩] := by decide
  exact Option.map_eq_some_iff.1 hrun

end Ioutgt.Target
