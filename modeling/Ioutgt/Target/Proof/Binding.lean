import Ioutgt.Nvme.Proof.Execute
import Ioutgt.Target.Queues

/-!
# Which subsystem a queue is bound to

Admission is checked when an admin queue connects; an IO queue inherits it through the registry, by
controller id. The invariant ties each live controller to the admin Connect that created it, and
each bound IO queue to the controller that was live when it connected.

* `Accounted.step`, `Accounted.run`: the invariant, over every interleaving of Connects, commands
  and removals;
* `Settled.step`: a queue that is bound stays bound to the same subsystem.
-/

namespace Ioutgt.Target

open Lib Ioutgt.Core Ioutgt.Nvme Ioutgt.Nvme.FabricsExec

variable {B : Type} {port : PortConfig} {w w' : Recorded B} {k : Nat} {ctx : ConnCtx (Volume B)}
  {r : Registry} {s : SubsystemId}

def boundSubsys (ctx : ConnCtx (Volume B)) : Option SubsystemId :=
  match ctx.role with
  | .admin a => a.subsys
  | .io i => i.subsys

def hostOf (ctx : ConnCtx (Volume B)) : Nqn := nqnStr ctx.connectData.hostnqn

/-! ## The invariant -/

/-- A live controller: it has an admin Connect behind it, which was admitted. -/
structure EntryOk (port : PortConfig) (creations : Nat → Option Creation) (id : Nat)
    (e : ControllerEntry) : Prop where
  pos : id ≠ 0
  creation : ∃ c, creations id = some c ∧ c.subsysnqn = e.subsysNqn ∧ c.hostnqn = e.hostnqn
  discovery : e.discovery = true → e.maxQid = 0
  admitted : e.discovery = false →
    ∃ s, port.subsystem e.subsysNqn = some s ∧ s.admits e.hostnqn = true

/-- IO queue `k` is rightly bound to `s`: its own Connect named a controller that was live, created
by an admin Connect to that subsystem from the same host, which `s` admits. -/
structure RightlyBound (port : PortConfig) (w : Recorded B) (k : Nat) (ctx : ConnCtx (Volume B))
    (s : SubsystemId) : Prop where
  configured : port.subsystem s.nqn = some s
  admits : s.admits (hostOf ctx) = true
  connect : ∃ c, w.bindings k = some
      { cntlid := ctx.connectData.cntlid, hostnqn := hostOf ctx, creation := some c } ∧
    c.subsysnqn = s.nqn ∧ c.hostnqn = hostOf ctx

structure QueueOk (port : PortConfig) (w : Recorded B) (k : Nat) (ctx : ConnCtx (Volume B)) :
    Prop where
  onPort : ctx.port = port
  admin : ∀ a s, ctx.role = .admin a → a.subsys = some s →
    port.subsystem (nqnStr ctx.connectData.subsysnqn) = some s ∧ s.admits (hostOf ctx) = true
  io : ∀ i s, ctx.role = .io i → i.subsys = some s → RightlyBound port w k ctx s
  unbound : ∀ i, ctx.role = .io i → i.cntlid = 0 → i.subsys = none
  cache : ∀ i m, ctx.role = .io i → i.nsCache.map = some m →
    ∃ s, i.subsys = some s ∧ ∃ t ∈ w.seen, m = (t s.nqn).namespaces

structure Accounted (port : PortConfig) (w : Recorded B) : Prop where
  entries : ∀ id e, w.queues.registry.controllers id = some e → EntryOk port w.creations id e
  live : ∀ id c, w.creations id = some c → w.queues.registry.contains id = true
  queues : ∀ k ctx, w.queues.ctxs k = some ctx → QueueOk port w k ctx
  fresh : ∀ k, w.queues.accepted ≤ k → w.queues.ctxs k = none

theorem Accounted.start (port : PortConfig) (slice : Slice) : Accounted port (.start B slice) where
  entries := fun _ _ h => nomatch h
  live := fun _ _ h => nomatch h
  queues := fun _ _ h => nomatch h
  fresh := fun _ _ => rfl

/-! ## Frames -/

/-- What a queue relies on does not change for it. -/
structure Kept (w w' : Recorded B) (k : Nat) : Prop where
  bindings : w'.bindings k = w.bindings k
  seen : w.seen ⊆ w'.seen

theorem QueueOk.frame (h : QueueOk port w k ctx) (hk : Kept w w' k) :
    QueueOk port w' k ctx where
  onPort := h.onPort
  admin := h.admin
  io := fun i s hrole hs =>
    { configured := (h.io i s hrole hs).configured
      admits := (h.io i s hrole hs).admits
      connect := hk.bindings ▸ (h.io i s hrole hs).connect }
  unbound := h.unbound
  cache := by
    intro i m hrole hm
    obtain ⟨s, hs, t, ht, he⟩ := h.cache i m hrole hm
    exact ⟨s, hs, t, hk.seen ht, he⟩

theorem EntryOk.congr {c c' : Nat → Option Creation} {id : Nat} {e : ControllerEntry}
    (h : EntryOk port c id e) (hc : c' id = c id) : EntryOk port c' id e :=
  ⟨h.pos, hc ▸ h.creation, h.discovery, h.admitted⟩

/-! ## Commands -/

def dispatched (w : Recorded B) (k : Nat) (tables : Admin.Tables B) (ctx : ConnCtx (Volume B))
    (r : Registry) : Recorded B :=
  { w with
    queues := { w.queues.setCtx k (some ctx) with registry := r }
    seen := tables :: w.seen }

theorem command_step [Backend B] {tables : Admin.Tables B} {now : Nat} {slot : SlotView} {sqe : Sqe}
    (h : w.step port (.command k tables now slot sqe) = some w') :
    ∃ ctx ctx' r', w.queues.ctxs k = some ctx ∧ Executed tables ctx w.queues.registry ctx' r' ∧
      w' = (dispatched w k tables ctx' r').noteConnect k ctx ctx' := by
  obtain ⟨q, hq, rfl⟩ := Option.map_eq_some_iff.1 h
  obtain ⟨ctx, hctx, hq⟩ := Option.bind_eq_some_iff.1 hq
  obtain ⟨reply, ctx', r', hex, hok⟩ :=
    execute_spec (ε := Empty) ctx tables w.queues.registry now slot sqe
  rw [hex] at hq
  obtain rfl := Option.some.inj hq
  refine ⟨ctx, ctx', r', hctx, hok, ?_⟩
  simp [Recorded.note, hctx, dispatched, Queues.setCtx]

theorem Accounted.lt (hi : Accounted port w) (hctx : w.queues.ctxs k = some ctx) :
    k < w.queues.accepted := by
  by_contra hle
  rw [hi.fresh k (Nat.not_lt.1 hle)] at hctx
  cases hctx

theorem Accounted.of_ctx {o : Option (ConnCtx (Volume B))} (hi : Accounted port w)
    (hq : w'.queues.ctxs = Function.update w.queues.ctxs k o)
    (hacc : w.queues.accepted ≤ w'.queues.accepted) (ho : o = none ∨ k < w'.queues.accepted)
    (hkept : ∀ j, j ≠ k → Kept w w' j)
    (hent : ∀ id e, w'.queues.registry.controllers id = some e → EntryOk port w'.creations id e)
    (hlive : ∀ id c, w'.creations id = some c → w'.queues.registry.contains id = true)
    (hk : ∀ ctx', o = some ctx' → QueueOk port w' k ctx') : Accounted port w' where
  entries := hent
  live := hlive
  queues := by
    intro j ctx₁ hj
    rw [hq] at hj
    by_cases he : j = k
    · subst he
      rw [Function.update_self] at hj
      exact hk ctx₁ hj
    · rw [Function.update_of_ne he] at hj
      exact (hi.queues j ctx₁ hj).frame (hkept j he)
  fresh := by
    intro j hj
    rw [hq]
    by_cases he : j = k
    · subst he
      rw [Function.update_self]
      exact ho.resolve_right (by omega)
    · rw [Function.update_of_ne he]
      exact hi.fresh j (hacc.trans hj)

variable {tables : Admin.Tables B} {a a' : AdminState} {i i' : IoState (Volume B)}

theorem noteConnect_queues (w : Recorded B) (k : Nat) (before after : ConnCtx (Volume B)) :
    (w.noteConnect k before after).queues = w.queues := by
  unfold Recorded.noteConnect
  repeat' split
  all_goals rfl

theorem kept_dispatched (w : Recorded B) (k : Nat) (tables : Admin.Tables B)
    (ctx : ConnCtx (Volume B)) (r : Registry) (j : Nat) :
    Kept w (dispatched w k tables ctx r) j :=
  ⟨rfl, List.subset_cons_self _ _⟩

theorem QueueOk.of_admin (h : QueueOk port w k ctx)
    (hs : ∀ s, a'.subsys = some s →
      port.subsystem (nqnStr ctx.connectData.subsysnqn) = some s ∧ s.admits (hostOf ctx) = true) :
    QueueOk port w' k { ctx with role := .admin a' } where
  onPort := h.onPort
  admin := by
    rintro _ s ⟨⟩ he
    exact hs s he
  io := fun _ _ hr => nomatch hr
  unbound := fun _ hr => nomatch hr
  cache := fun _ _ hr => nomatch hr

theorem QueueOk.resolved (h : QueueOk port w k ctx) (hrole : ctx.role = .admin a)
    {new : Option SubsystemId} (hres : Resolved ctx a.subsys new) (hs : new = some s) :
    port.subsystem (nqnStr ctx.connectData.subsysnqn) = some s ∧ s.admits (hostOf ctx) = true := by
  rcases hres with ⟨-, he⟩ | ⟨-, s', hs', hadm, he⟩
  · exact h.admin a s hrole (he ▸ hs)
  · obtain rfl : s' = s := Option.some.inj (he.symm.trans hs)
    exact ⟨h.onPort ▸ hs', hadm⟩

theorem QueueOk.io_same (h : QueueOk port w k ctx) (hrole : ctx.role = .io i)
    (hcntlid : i'.cntlid = i.cntlid) (hsubsys : i'.subsys = i.subsys)
    (hcache : i'.nsCache = i.nsCache ∨
      ∃ s, i.subsys = some s ∧ i'.nsCache.map = some (tables s.nqn).namespaces) (r : Registry) :
    QueueOk port (dispatched w k tables { ctx with role := .io i' } r) k
      { ctx with role := .io i' } where
  onPort := h.onPort
  admin := fun _ _ hr => nomatch hr
  io := by
    rintro _ s ⟨⟩ hs
    have hb := h.io i s hrole (hsubsys ▸ hs)
    exact ⟨hb.configured, hb.admits, hb.connect⟩
  unbound := by
    rintro _ ⟨⟩ h0
    rw [hsubsys]
    exact h.unbound i hrole (hcntlid ▸ h0)
  cache := by
    rintro _ m ⟨⟩ hm
    rcases hcache with he | ⟨s, hs, he⟩
    · obtain ⟨s, hs, t, ht, hmt⟩ := h.cache i m hrole (he ▸ hm)
      exact ⟨s, hsubsys ▸ hs, t, List.mem_cons_of_mem _ ht, hmt⟩
    · obtain rfl := Option.some.inj (he.symm.trans hm)
      exact ⟨s, hsubsys ▸ hs, tables, List.mem_cons_self .., rfl⟩

/-! ### Accepted Connects -/

theorem EntryOk.created {cmd : ConnectCommand} {c : Creation} (hi : Accounted port w)
    (h : QueueOk port w k ctx) {old : Option SubsystemId} (hres : Resolved ctx old a'.subsys)
    (hpos : a'.cntlid ≠ 0) (hsub : c.subsysnqn = nqnStr ctx.connectData.subsysnqn)
    (hhost : c.hostnqn = hostOf ctx) (id : Nat) (e : ControllerEntry)
    (he : (w.queues.registry.insert (request ctx cmd) a'.cntlid).controllers id = some e) :
    EntryOk port (Function.update w.creations a'.cntlid (some c)) id e := by
  by_cases hid : id = a'.cntlid
  · subst hid
    obtain rfl : (request ctx cmd).entry a'.cntlid w.queues.registry.nextTraffic = e := by
      simpa [Registry.insert] using he
    refine ⟨hpos, ⟨c, Function.update_self .., hsub, hhost⟩, ?_, ?_⟩
    · intro hd
      exact if_pos hd
    · intro hd
      have hne : nqnStr ctx.connectData.subsysnqn ≠ discoveryNqn := by
        simpa [Registry.Request.entry, request] using hd
      rcases hres with ⟨hdisc, -⟩ | ⟨-, s, hs, hadm, -⟩
      · exact absurd hdisc hne
      · exact ⟨s, h.onPort ▸ hs, hadm⟩
  · have hold := hi.entries id e (by simpa [Registry.insert, Function.update_of_ne hid] using he)
    exact hold.congr (Function.update_of_ne hid ..)

theorem QueueOk.bound {entry : ControllerEntry} (h : QueueOk port w k ctx)
    (hrole : ctx.role = .io i) (hfresh : i.cntlid = 0)
    (he : EntryOk port w.creations ctx.connectData.cntlid entry) (hhost : entry.hostnqn = hostOf ctx)
    (hqid : 1 ≤ ctx.qid) (hmax : ctx.qid ≤ entry.maxQid)
    (hbind : w'.bindings k =
      some { cntlid := ctx.connectData.cntlid, hostnqn := hostOf ctx
             creation := w.creations ctx.connectData.cntlid })
    (queues : List QueueInfo) :
    QueueOk port w' k
      { ctx with role := .io (bindIo ctx i ctx.connectData.cntlid { entry with queues }) } := by
  have hnone : i.subsys = none := h.unbound i hrole hfresh
  have hnd : entry.discovery = false := by
    by_contra hd
    have := he.discovery (by simpa using hd)
    omega
  have hsub : (bindIo ctx i ctx.connectData.cntlid { entry with queues }).subsys
      = port.subsystem entry.subsysNqn := by
    simp [bindIo, hnd, hnone, h.onPort]
  refine ⟨h.onPort, fun _ _ hr => (nomatch hr), ?_, ?_, ?_⟩
  · rintro _ s ⟨⟩ hs
    rw [hsub] at hs
    have hnqn : s.nqn = entry.subsysNqn := PortConfig.subsystem_nqn hs
    obtain ⟨s', hs', hadm⟩ := he.admitted hnd
    obtain rfl : s' = s := Option.some.inj (hs'.symm.trans hs)
    obtain ⟨c, hc, hcsub, hchost⟩ := he.creation
    refine ⟨hnqn ▸ hs, hhost ▸ hadm, c, ?_, hcsub.trans hnqn.symm, hchost.trans hhost⟩
    rw [hbind, hc]
    rfl
  · rintro _ ⟨⟩ h0
    exact absurd h0 he.pos
  · rintro _ m ⟨⟩ hm
    obtain ⟨s, hs, -⟩ := h.cache i m hrole hm
    rw [hnone] at hs
    cases hs

/-- **Commands keep the invariant.** -/
theorem Accounted.command [Backend B] {now : Nat} {slot : SlotView} {sqe : Sqe}
    (hi : Accounted port w) (h : w.step port (.command k tables now slot sqe) = some w') :
    Accounted port w' := by
  obtain ⟨ctx, ctx', r', hctx, hex, rfl⟩ := command_step h
  have hk := hi.queues k ctx hctx
  cases hex with
  | admin hrole hcntlid hsubsys =>
    simp only [Recorded.noteConnect, hrole, hcntlid, and_not_self, if_false]
    refine hi.of_ctx rfl (Nat.le_refl _) (.inr (hi.lt hctx)) (fun j _ => kept_dispatched ..) hi.entries
      hi.live fun _ h => Option.some.inj h ▸ ?_
    exact hk.of_admin fun s hs => hk.admin _ s hrole (hsubsys ▸ hs)
  | resolved hrole hfresh hres hzero =>
    simp only [Recorded.noteConnect, hrole, hzero, ne_eq, not_true_eq_false, and_false, if_false]
    refine hi.of_ctx rfl (Nat.le_refl _) (.inr (hi.lt hctx)) (fun j _ => kept_dispatched ..) hi.entries
      hi.live fun _ h => Option.some.inj h ▸ ?_
    exact hk.of_admin fun s hs => hk.resolved hrole hres hs
  | @created a a' cmd hrole hfresh hres hhas hfree =>
    have hpos : a'.cntlid ≠ 0 := by
      have := w.queues.registry.slice.valid.1
      have := hhas.1
      omega
    simp only [Recorded.noteConnect, hrole, if_pos (And.intro hfresh hpos)]
    refine hi.of_ctx rfl (Nat.le_refl _) (.inr (hi.lt hctx)) (fun j _ => ⟨rfl, List.subset_cons_self _ _⟩)
      (EntryOk.created hi hk hres hpos rfl rfl) ?_ fun _ h => Option.some.inj h ▸ ?_
    · intro id c hc
      by_cases hid : id = a'.cntlid
      · subst hid
        simp [dispatched, Registry.contains, Registry.insert]
      · have hold := hi.live id c (by simpa [dispatched, Function.update_of_ne hid] using hc)
        simpa [dispatched, Registry.contains, Registry.insert, Function.update_of_ne hid] using hold
    · exact hk.of_admin fun s hs => hk.resolved hrole hres hs
  | io hrole hcntlid hsubsys hcache =>
    simp only [Recorded.noteConnect, hrole, hcntlid, and_not_self, if_false]
    refine hi.of_ctx rfl (Nat.le_refl _) (.inr (hi.lt hctx)) (fun j _ => kept_dispatched ..) hi.entries
      hi.live fun _ h => Option.some.inj h ▸ ?_
    exact hk.io_same hrole hcntlid hsubsys hcache _
  | @bound i entry hrole hfresh hlive hhost hqid hmax =>
    have hent := hi.entries _ _ hlive
    have hpos : (bindIo ctx i ctx.connectData.cntlid
      { entry with queues := entry.queues ++ [ctx.queueInfo] }).cntlid ≠ 0 := hent.pos
    simp only [Recorded.noteConnect, hrole, if_pos (And.intro hfresh hpos)]
    refine hi.of_ctx rfl (Nat.le_refl _) (.inr (hi.lt hctx))
      (fun j hj => ⟨Function.update_of_ne hj .., List.subset_cons_self _ _⟩) ?_ ?_
      fun _ h => Option.some.inj h ▸ ?_
    · intro id e he
      by_cases hid : id = ctx.connectData.cntlid
      · subst hid
        obtain rfl : { entry with queues := entry.queues ++ [ctx.queueInfo] } = e := by
          simpa [dispatched, Registry.setEntry] using he
        exact ⟨hent.pos, hent.creation, hent.discovery, hent.admitted⟩
      · exact hi.entries id e
          (by simpa [dispatched, Registry.setEntry, Function.update_of_ne hid] using he)
    · intro id c hc
      have hold := hi.live id c hc
      by_cases hid : id = ctx.connectData.cntlid
      · subst hid
        simp [dispatched, Registry.contains, Registry.setEntry]
      · simpa [dispatched, Registry.contains, Registry.setEntry, Function.update_of_ne hid] using hold
    · exact hk.bound hrole hfresh hent hhost hqid hmax (Function.update_self ..) _

/-! ## The other actions -/

theorem QueueOk.new (w : Recorded B) (k : Nat) (conn : QueueConn) (port : PortConfig) (now : Nat) :
    QueueOk port w k (conn.ctx port now) := by
  by_cases h0 : conn.qid = 0
  · have hrole : (conn.ctx port now : ConnCtx (Volume B)).role = .admin (.new now) := if_pos h0
    refine ⟨rfl, ?_, ?_, ?_, ?_⟩
    · intro a s hr hs
      obtain rfl := Role.admin.inj (hrole.symm.trans hr)
      cases hs
    all_goals
      intro i
      rw [hrole]
      intros
      contradiction
  · have hrole : (conn.ctx port now : ConnCtx (Volume B)).role = .io (.new _) := if_neg h0
    refine ⟨rfl, ?_, ?_, ?_, ?_⟩
    · intro a s hr
      cases hrole.symm.trans hr
    · intro i s hr hs
      obtain rfl := Role.io.inj (hrole.symm.trans hr)
      cases hs
    · intro i hr _
      obtain rfl := Role.io.inj (hrole.symm.trans hr)
      rfl
    · intro i m hr hm
      obtain rfl := Role.io.inj (hrole.symm.trans hr)
      cases hm

theorem Accounted.accept (hi : Accounted port w) (conn : QueueConn) (now : Nat) :
    Accounted port { w with queues := { w.queues.setCtx w.queues.accepted (some (conn.ctx port now)) with
      accepted := w.queues.accepted + 1 } } :=
  hi.of_ctx rfl (Nat.le_succ _) (.inr (Nat.lt_succ_self _)) (fun _ _ => ⟨rfl, List.Subset.refl _⟩)
    hi.entries hi.live fun _ h => Option.some.inj h ▸ .new _ _ conn port now

theorem Accounted.remove (hi : Accounted port w) (cntlid : Nat) :
    Accounted port { w with
      queues := { w.queues with registry := (w.queues.registry.remove cntlid).2 }
      creations := Function.update w.creations cntlid none } where
  entries := by
    intro id e he
    have hid : id ≠ cntlid := by
      rintro rfl
      obtain ⟨hnone, hrem⟩ | ⟨entry, -, hrem⟩ := w.queues.registry.remove_spec id
      · rw [hrem, hnone] at he
        cases he
      · simp [hrem, Registry.dropEntry] at he
    have hold : w.queues.registry.controllers id = some e := by
      obtain ⟨-, hrem⟩ | ⟨entry, -, hrem⟩ := w.queues.registry.remove_spec cntlid
      · simpa [hrem] using he
      · simpa [hrem, Registry.dropEntry, Function.update_of_ne hid] using he
    exact (hi.entries id e hold).congr (Function.update_of_ne hid ..)
  live := by
    intro id c hc
    have hid : id ≠ cntlid := by
      rintro rfl
      simp at hc
    have hold := hi.live id c (by simpa [Function.update_of_ne hid] using hc)
    obtain ⟨-, hrem⟩ | ⟨entry, -, hrem⟩ := w.queues.registry.remove_spec cntlid
    · simpa [hrem] using hold
    · simpa [hrem, Registry.contains, Registry.dropEntry, Function.update_of_ne hid] using hold
  queues := fun j ctx hj => (hi.queues j ctx hj).frame ⟨rfl, List.Subset.refl _⟩
  fresh := hi.fresh

theorem Accounted.close (hi : Accounted port w) (k : Nat) :
    Accounted port { w with queues := w.queues.setCtx k none } :=
  hi.of_ctx rfl (Nat.le_refl _) (.inl rfl) (fun _ _ => ⟨rfl, List.Subset.refl _⟩) hi.entries hi.live
    fun _ h => nomatch h

theorem Accounted.step [Backend B] {a : QueueAction B} (hi : Accounted port w)
    (h : w.step port a = some w') : Accounted port w' := by
  cases a with
  | command k tables now slot sqe => exact hi.command h
  | accept conn now =>
    obtain rfl := Option.some.inj h
    exact hi.accept conn now
  | remove cntlid =>
    obtain rfl := Option.some.inj h
    exact hi.remove cntlid
  | close k =>
    obtain rfl := Option.some.inj h
    exact hi.close k

theorem Accounted.run [Backend B] {as : List (QueueAction B)} (hi : Accounted port w)
    (h : runFrom (Recorded.step port) w as = some w') : Accounted port w' :=
  runFrom_invariant (fun hi hs => hi.step hs) hi h

/-! ## A binding stays -/

/-- As long as queue `k` is there, it is bound to `s`. -/
structure Settled (port : PortConfig) (k : Nat) (s : SubsystemId) (w : Recorded B) : Prop where
  inv : Accounted port w
  accepted : k < w.queues.accepted
  bound : ∀ ctx, w.queues.ctxs k = some ctx → boundSubsys ctx = some s

theorem Executed.boundSubsys_eq {r' : Registry} {ctx' : ConnCtx (Volume B)}
    (h : QueueOk port w k ctx) (hs : boundSubsys ctx = some s) (hex : Executed tables ctx r ctx' r')
    : boundSubsys ctx' = some s := by
  unfold boundSubsys at hs
  have hresolved : ∀ {a : AdminState} {new : Option SubsystemId}, ctx.role = .admin a →
      Resolved ctx a.subsys new → new = some s := by
    intro a new hrole hres
    rw [hrole] at hs
    rcases hres with ⟨-, he⟩ | ⟨-, s', hs', -, he⟩
    · exact he.trans hs
    · have hold := (h.admin a s hrole hs).1
      rw [h.onPort] at hs'
      exact he.trans (hs'.symm.trans hold)
  cases hex with
  | admin hrole _ hsubsys =>
    rw [hrole] at hs
    exact hsubsys.trans hs
  | resolved hrole _ hres _ => exact hresolved hrole hres
  | created hrole _ hres _ _ => exact hresolved hrole hres
  | io hrole _ hsubsys _ =>
    rw [hrole] at hs
    exact hsubsys.trans hs
  | bound hrole hfresh _ _ _ _ =>
    rw [hrole] at hs
    have hnone := h.unbound _ hrole hfresh
    cases hs.symm.trans hnone

theorem Settled.step [Backend B] {a : QueueAction B} (hs : Settled port k s w)
    (h : w.step port a = some w') : Settled port k s w' := by
  have hinv := hs.inv.step h
  cases a with
  | command j tables now slot sqe =>
    obtain ⟨ctx, ctx', r', hctx, hex, rfl⟩ := command_step h
    refine ⟨hinv, by rw [noteConnect_queues]; exact hs.accepted, ?_⟩
    rw [noteConnect_queues]
    intro ctx₁ h₁
    by_cases hj : k = j
    · subst hj
      obtain rfl : ctx' = ctx₁ := by simpa [dispatched, Queues.setCtx] using h₁
      exact Executed.boundSubsys_eq (hs.inv.queues k ctx hctx) (hs.bound ctx hctx) hex
    · exact hs.bound ctx₁ (by simpa [dispatched, Queues.setCtx, Function.update_of_ne hj] using h₁)
  | accept conn now =>
    obtain rfl := Option.some.inj h
    refine ⟨hinv, Nat.lt_succ_of_lt hs.accepted, fun ctx₁ h₁ => hs.bound ctx₁ ?_⟩
    have hne : k ≠ w.queues.accepted := Nat.ne_of_lt hs.accepted
    simpa [Recorded.note, Queues.setCtx, Function.update_of_ne hne] using h₁
  | remove cntlid =>
    obtain rfl := Option.some.inj h
    exact ⟨hinv, hs.accepted, hs.bound⟩
  | close j =>
    obtain rfl := Option.some.inj h
    refine ⟨hinv, hs.accepted, fun ctx₁ h₁ => hs.bound ctx₁ ?_⟩
    have hne : k ≠ j := by
      rintro rfl
      simp [Recorded.note, Queues.setCtx] at h₁
    simpa [Recorded.note, Queues.setCtx, Function.update_of_ne hne] using h₁

/-- **IO runs only where it was admitted.** In every interleaving of Connects from any hosts on any
queues with commands, closings and controller removals: an IO command makes a call only on a queue
that is rightly bound, and to backends of that subsystem; no queue is bound to a subsystem that does
not admit its host; and a queue's binding never changes. -/
theorem io_only_on_rightly_bound_queues [Backend B] (port : PortConfig) (slice : Slice)
    (as : List (QueueAction B)) (w : Recorded B)
    (h : runFrom (Recorded.step port) (.start B slice) as = some w) :
    (∀ k ctx i, w.queues.ctxs k = some ctx → ctx.role = .io i →
      ∀ tables slot sqe op ops out, (Io.execute i tables slot sqe).1.Runs (op :: ops) out →
      ∃ s, i.subsys = some s ∧ RightlyBound port w k ctx s ∧
        ∀ o ∈ op :: ops, ∀ b, o.backend = some b →
          ∃ t ∈ tables :: w.seen, ∃ ns ∈ (t s.nqn).namespaces, ns.backend.backend = b) ∧
    (∀ k ctx s, w.queues.ctxs k = some ctx → boundSubsys ctx = some s →
      port.subsystem s.nqn = some s ∧ s.admits (hostOf ctx) = true) ∧
    (∀ id c, w.creations id = some c → w.queues.registry.contains id = true) ∧
    ∀ k ctx s, w.queues.ctxs k = some ctx → boundSubsys ctx = some s →
      ∀ later w', runFrom (Recorded.step port) w later = some w' →
      ∀ ctx', w'.queues.ctxs k = some ctx' → boundSubsys ctx' = some s := by
  have hi : Accounted port w := (Accounted.start port slice).run h
  refine ⟨?_, ?_, hi.live, ?_⟩
  · intro k ctx i hctx hrole tables slot sqe op ops out hruns
    have hk := hi.queues k ctx hctx
    obtain ⟨s, hs, table, htable, ns, hns, hon⟩ := Io.execute_calls hruns
    refine ⟨s, hs, hk.io i s hrole hs, fun o ho b hb => ?_⟩
    rcases htable with rfl | hcache
    · exact ⟨tables, List.mem_cons_self .., ns, hns, (hon o ho b hb).symm⟩
    · obtain ⟨s', hs', t, ht, rfl⟩ := hk.cache i table hrole hcache
      obtain rfl : s' = s := Option.some.inj (hs'.symm.trans hs)
      exact ⟨t, List.mem_cons_of_mem _ ht, ns, hns, (hon o ho b hb).symm⟩
  · intro k ctx s hctx hs
    have hk := hi.queues k ctx hctx
    unfold boundSubsys at hs
    cases hrole : ctx.role with
    | admin a =>
      rw [hrole] at hs
      obtain ⟨hsub, hadm⟩ := hk.admin a s hrole hs
      exact ⟨PortConfig.subsystem_nqn hsub ▸ hsub, hadm⟩
    | io i =>
      rw [hrole] at hs
      have hb := hk.io i s hrole hs
      exact ⟨hb.configured, hb.admits⟩
  · intro k ctx s hctx hs later w' hrun ctx' hctx'
    have hset : Settled port k s w :=
      ⟨hi, hi.lt hctx, fun ctx₁ h₁ => Option.some.inj (hctx.symm.trans h₁) ▸ hs⟩
    exact (@runFrom_invariant _ _ (Recorded.step port) (Settled port k s) Settled.step later w w' hset
      hrun).bound ctx' hctx'

def guarded : SubsystemId :=
  { nqn := [97], serial := [], allowAnyHost := false, allowedHosts := [[104]] }

def guardedPort : PortConfig :=
  { traddr := [], trsvcid := [], trtype := .tcp, maxQid := 1, ioQueueSize := 128
    subsystems := [guarded], nodup := List.nodup_singleton _, fits := by decide }

def hostConn (qid cntlid : Nat) : QueueConn :=
  { qid, sqsize := 32, tid := 1, cpus := [], peer := []
    connectData := { hostid := [], cntlid, subsysnqn := [97, 0], hostnqn := [104, 0] } }

def connectAction (k : Nat) : QueueAction Geometry :=
  .command k (fun _ => .new []) 0 noPayload
    { Sqe.zeroed with opcode := AdminOpcode.fabrics, nsid := Fctype.connect }

def bothConnect : List (QueueAction Geometry) :=
  [.accept (hostConn 0 0xFFFF) 0, connectAction 0, .accept (hostConn 1 1) 0, connectAction 1]

theorem io_only_on_rightly_bound_queues_admitted :
    ∃ w ctx, runFrom (Recorded.step guardedPort)
        (.start Geometry { min := 1, max := cntlidMax, valid := by decide }) bothConnect = some w ∧
      w.queues.ctxs 1 = some ctx ∧ boundSubsys ctx = some guarded ∧
      guarded.admits (hostOf ctx) = true := by
  have hrun : ((runFrom (Recorded.step guardedPort)
      (.start Geometry { min := 1, max := cntlidMax, valid := by decide }) bothConnect).bind
        fun w => (w.queues.ctxs 1).bind boundSubsys) = some guarded := by
    decide +kernel
  obtain ⟨w, hw, hq⟩ := Option.bind_eq_some_iff.1 hrun
  obtain ⟨ctx, hctx, hs⟩ := Option.bind_eq_some_iff.1 hq
  exact ⟨w, ctx, hw, hctx, hs,
    ((io_only_on_rightly_bound_queues guardedPort _ bothConnect w hw).2.1 1 ctx guarded hctx hs).2⟩

end Ioutgt.Target
