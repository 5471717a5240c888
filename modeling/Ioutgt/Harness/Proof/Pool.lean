import Ioutgt.Harness.Pool

/-!
# Connections and the queue threads that never run

* `Target.Inv`: a connection is in one mailbox at most, of the published pool, and permits are the open
  connections;
* `Target.canTake_iff`: a waiting connection can be taken exactly when its thread is not gone;
* `routed_connections_taken_iff`: every waiting connection can be taken exactly in the runs in which no
  connection met a thread that did not run.
-/

namespace Ioutgt.Harness

open Lib

variable {conns : List Place} {active : Nat} {p q : Place}

namespace Target

variable {config : PoolConfig} {s s' : Target} {a : PoolAction} {th : ThreadId} {t t' : QueueThread}
  {c : Nat}

/-! ## Threads and mailboxes -/

@[simp] theorem setThread_self (s : Target) (th : ThreadId) (t : QueueThread) :
    (s.setThread th t).threads th = some t := by
  simp [setThread]

theorem setThread_other (s : Target) {th th' : ThreadId} (t : QueueThread) (h : th' ≠ th) :
    (s.setThread th t).threads th' = s.threads th' := by
  simp [setThread, h]

theorem send_eq (ht : s.threads th = some t) (msg : Msg) :
    s.send th msg = s.setThread th { t with mailbox := t.mailbox ++ [msg] } := by
  simp [send, setThread, ht]

theorem send_none (ht : s.threads th = none) (msg : Msg) : s.send th msg = s := by
  have hsame : Function.update s.threads th none = s.threads := by
    rw [← ht]
    exact Function.update_eq_self th s.threads
  simp [send, ht, hsame]

theorem isGone_eq (ht : s.threads th = some t) : s.isGone th = decide (t.status = .gone) := by
  simp [isGone, ht]

theorem holdsConn_iff (ht : s.threads th = some t) :
    s.holdsConn th = true ↔ ∃ c, Msg.conn c ∈ t.mailbox := by
  simp only [holdsConn, ht, Option.elim_some, List.any_eq_true]
  constructor
  · rintro ⟨m, hm, hc⟩
    cases m with
    | conn c => exact ⟨c, hm⟩
    | stats | nsChanged | shutdown => cases hc
  · rintro ⟨c, hc⟩
    exact ⟨_, hc, rfl⟩

/-! ## The invariant -/

structure Inv (config : PoolConfig) (s : Target) : Prop where
  active : s.active = s.conns.countP Place.isOpen
  handshake : ∀ (c : Nat) pool, s.conns[c]? = some (Place.handshake pool) → s.senders = some pool
  queued : ∀ (c : Nat) th, s.conns[c]? = some (Place.queued th) →
    s.senders = some th.pool ∧ ∃ t, s.threads th = some t
  mail : ∀ th t (c : Nat), s.threads th = some t →
    t.mailbox.count (Msg.conn c) = if s.conns[c]? = some (Place.queued th) then 1 else 0
  pool : ∀ pool, s.senders = some pool →
    pool < s.pools ∧ ∀ index ≤ config.ioThreads, ∃ t, s.threads ⟨pool, index⟩ = some t
  built : ∀ th t, s.threads th = some t → th.pool < s.pools
  running : ∀ th t, s.threads th = some t → s.senders = some th.pool → Msg.shutdown ∉ t.mailbox

theorem Inv.start : Inv config start where
  active := rfl
  handshake := by intro c pool h; simp [Target.start] at h
  queued := by intro c th h; simp [Target.start] at h
  mail := by intro th t c h; cases h
  pool := by intro pool h; cases h
  built := by intro th t h; cases h
  running := by intro th t h; cases h

theorem Inv.mem_mailbox (hi : Inv config s) (ht : s.threads th = some t) :
    Msg.conn c ∈ t.mailbox ↔ s.conns[c]? = some (Place.queued th) := by
  rw [← List.count_pos_iff, hi.mail th t c ht]
  split <;> simp [*]

theorem Inv.change (hi : Inv config s) (ht : s.threads th = some t)
    (hactive : active = conns.countP Place.isOpen)
    (hhand : ∀ (c : Nat) pool, conns[c]? = some (Place.handshake pool) → s.senders = some pool)
    (hhere : ∀ c : Nat, conns[c]? = some (Place.queued th) → s.senders = some th.pool)
    (hother : ∀ (c : Nat) th', th' ≠ th →
      (conns[c]? = some (Place.queued th') ↔ s.conns[c]? = some (Place.queued th')))
    (hmail : ∀ c, t'.mailbox.count (Msg.conn c) = if conns[c]? = some (Place.queued th) then 1 else 0)
    (hshut : Msg.shutdown ∈ t'.mailbox → Msg.shutdown ∈ t.mailbox) :
    Inv config ({ s with active, conns }.setThread th t') := by
  have hself : ∀ {u}, ({ s with active, conns }.setThread th t').threads th = some u → t' = u :=
    fun hu => Option.some.inj ((setThread_self ..).symm.trans hu)
  have hrest : ∀ {th'} u, th' ≠ th →
      (({ s with active, conns }.setThread th t').threads th' = some u ↔ s.threads th' = some u) :=
    fun u h => by rw [setThread_other _ _ h]
  have hsome : ∀ th' u, s.threads th' = some u →
      ∃ u', ({ s with active, conns }.setThread th t').threads th' = some u' := by
    intro th' u hu
    by_cases h : th' = th
    · subst h
      exact ⟨t', setThread_self ..⟩
    · exact ⟨u, (hrest u h).2 hu⟩
  refine ⟨hactive, hhand, ?_, ?_, ?_, ?_, ?_⟩
  · intro c th' hc
    by_cases h : th' = th
    · subst h
      exact ⟨hhere c hc, hsome _ t ht⟩
    · obtain ⟨hs, u, hu⟩ := hi.queued c th' ((hother c th' h).1 hc)
      exact ⟨hs, hsome th' u hu⟩
  · intro th' u c hu
    by_cases h : th' = th
    · subst h
      obtain rfl := hself hu
      exact hmail c
    · rw [hi.mail th' u c ((hrest u h).1 hu)]
      exact if_congr (hother c th' h).symm rfl rfl
  · intro pool hp
    obtain ⟨hlt, hall⟩ := hi.pool pool hp
    refine ⟨hlt, fun index hle => ?_⟩
    obtain ⟨u, hu⟩ := hall index hle
    exact hsome _ u hu
  · intro th' u hu
    by_cases h : th' = th
    · subst h
      exact hi.built th' t ht
    · exact hi.built th' u ((hrest u h).1 hu)
  · intro th' u hu hp hmem
    by_cases h : th' = th
    · subst h
      obtain rfl := hself hu
      exact hi.running th' t ht hp (hshut hmem)
    · exact hi.running th' u ((hrest u h).1 hu) hp hmem

theorem Inv.setThread (hi : Inv config s) (ht : s.threads th = some t)
    (hmail : ∀ c, t'.mailbox.count (Msg.conn c) = t.mailbox.count (Msg.conn c))
    (hshut : Msg.shutdown ∈ t'.mailbox → Msg.shutdown ∈ t.mailbox) :
    Inv config (s.setThread th t') :=
  hi.change ht hi.active hi.handshake (fun c hc => (hi.queued c th hc).1) (fun _ _ _ => Iff.rfl)
    (fun c => (hmail c).trans (hi.mail th t c ht)) hshut

theorem Inv.send (hi : Inv config s) {msg : Msg} (hconn : ∀ c, msg ≠ .conn c)
    (hshut : msg ≠ .shutdown) : Inv config (s.send th msg) := by
  cases ht : s.threads th with
  | none =>
    rw [send_none ht]
    exact hi
  | some t =>
    rw [send_eq ht]
    refine hi.setThread ht (fun c => ?_) fun hmem => ?_
    · simp [List.count_append, hconn c]
    · rcases List.mem_append.1 hmem with h | h
      · exact h
      · exact absurd (List.mem_singleton.1 h).symm hshut

theorem Inv.setConns (hi : Inv config s) (hactive : active = conns.countP Place.isOpen)
    (hqueued : ∀ (c : Nat) th, conns[c]? = some (Place.queued th) ↔ s.conns[c]? = some (Place.queued th))
    (hhand : ∀ (c : Nat) pool, conns[c]? = some (Place.handshake pool) → s.senders = some pool) :
    Inv config { s with active, conns } where
  active := hactive
  handshake := hhand
  queued := fun c th hc => hi.queued c th ((hqueued c th).1 hc)
  mail := by
    intro th t c ht
    rw [hi.mail th t c ht]
    simp only [hqueued c th]
  pool := hi.pool
  built := hi.built
  running := hi.running

theorem getElem?_move (hc : s.conns[c]? = some q) (d : Nat) :
    (s.conns.set c p)[d]? = if c = d then some p else s.conns[d]? := by
  obtain ⟨hlt, -⟩ := List.getElem?_eq_some_iff.1 hc
  rw [List.getElem?_set]
  split <;> simp [hlt]

theorem Inv.close (hi : Inv config s) (hc : s.conns[c]? = some p) (hopen : p.isOpen = true)
    (hp : ∀ th, p ≠ .queued th) : Inv config (s.close c) := by
  obtain ⟨hlt, hget⟩ := List.getElem?_eq_some_iff.1 hc
  refine hi.setConns ?_ (fun d th => ?_) fun d pool hd => ?_
  · rw [List.countP_set hlt, hi.active, hget, if_pos hopen]
    rfl
  · rw [getElem?_move hc]
    split
    · rename_i h
      subst h
      simp [hc, hp th]
    · rfl
  · rw [getElem?_move hc] at hd
    split at hd
    · cases hd
    · exact hi.handshake d pool hd

theorem Inv.idle (hi : Inv config s) (idleSince : Option Nat) : Inv config { s with idleSince } :=
  ⟨hi.active, hi.handshake, hi.queued, hi.mail, hi.pool, hi.built, hi.running⟩

/-! ## What each step keeps -/

theorem Inv.ensurePoolUp (hi : Inv config s) (spawn : Option (Nat → Bool)) :
    Inv config (s.ensurePoolUp config spawn) := by
  unfold Target.ensurePoolUp
  split
  · exact hi
  · exact hi
  · rename_i started hdown
    -- the threads of the pools before this one are as they were
    have hold : ∀ {th t}, s.threads th = some t → ¬ (th.pool = s.pools ∧ th.index ≤ config.ioThreads) :=
      fun ht h => absurd (hi.built _ _ ht) (by omega)
    have hnone : ∀ (c : Nat) th, s.conns[c]? ≠ some (Place.queued th) := fun c th hc => by
      cases hdown.symm.trans (hi.queued c th hc).1
    refine ⟨hi.active, ?_, ?_, ?_, ?_, ?_, ?_⟩
    · intro c pool hc
      cases hdown.symm.trans (hi.handshake c pool hc)
    · intro c th hc
      exact absurd hc (hnone c th)
    · intro th t c ht
      rw [if_neg (hnone c th)]
      dsimp only at ht
      split at ht
      · obtain rfl := Option.some.inj ht
        rfl
      · rw [hi.mail th t c ht, if_neg (hnone c th)]
    · intro pool hp
      obtain rfl := Option.some.inj hp
      refine ⟨Nat.lt_succ_self _, fun index hle => ?_⟩
      exact ⟨_, if_pos ⟨rfl, hle⟩⟩
    · intro th t ht
      dsimp only at ht ⊢
      split at ht
      · omega
      · exact Nat.lt_succ_of_lt (hi.built th t ht)
    · intro th t ht hp
      dsimp only at ht hp
      split at ht
      · obtain rfl := Option.some.inj ht
        simp
      · have hpool := Option.some.inj hp
        exact absurd (hi.built th t ht) (by omega)

theorem getElem?_join (hc : (conns ++ [p])[c]? = some q) : conns[c]? = some q ∨ p = q := by
  rw [List.getElem?_append] at hc
  split at hc
  · exact .inl hc
  · rw [List.getElem?_singleton] at hc
    split at hc
    · exact .inr (Option.some.inj hc)
    · cases hc

theorem Inv.join (hi : Inv config s) (hactive : active = s.active + if p.isOpen then 1 else 0)
    (hp : ∀ th, p ≠ .queued th) (hhand : ∀ pool, p = .handshake pool → s.senders = some pool) :
    Inv config { s with active, conns := s.conns ++ [p] } := by
  refine hi.setConns ?_ (fun c th => ⟨fun hc => ?_, fun hc => ?_⟩) fun c pool hc => ?_
  · rw [List.countP_append, List.countP_singleton, hactive, hi.active]
  · exact (getElem?_join hc).resolve_right (hp th)
  · rw [List.getElem?_append_left (List.getElem?_eq_some_iff.1 hc).1]
    exact hc
  · rcases getElem?_join hc with h | h
    · exact hi.handshake c pool h
    · exact hhand pool h

theorem Inv.moves (hi : Inv config s) (ht : s.threads th = some t) (hc : s.conns[c]? = some q)
    (hq : q.isOpen = true) (hp : p.isOpen = true) (hhand : ∀ pool, p ≠ .handshake pool)
    (hother : ∀ th', th' ≠ th → q ≠ .queued th' ∧ p ≠ .queued th')
    (hsenders : s.senders = some th.pool)
    (hmail : ∀ d, t'.mailbox.count (Msg.conn d) =
      if c = d then (if p = .queued th then 1 else 0) else t.mailbox.count (Msg.conn d))
    (hshut : Msg.shutdown ∈ t'.mailbox → Msg.shutdown ∈ t.mailbox) :
    Inv config ({ s with conns := s.conns.set c p }.setThread th t') := by
  obtain ⟨hlt, hget⟩ := List.getElem?_eq_some_iff.1 hc
  refine hi.change ht ?_ ?_ (fun _ _ => hsenders) ?_ ?_ hshut
  · have hpos : 0 < s.conns.countP Place.isOpen :=
      List.countP_pos_iff.2 ⟨_, List.getElem_mem hlt, by rw [hget]; exact hq⟩
    rw [List.countP_set hlt, hget, if_pos hq, if_pos hp, hi.active]
    omega
  · intro d pool hd
    rw [getElem?_move hc] at hd
    split at hd
    · exact absurd (Option.some.inj hd) (hhand pool)
    · exact hi.handshake d pool hd
  · intro d th' hne
    rw [getElem?_move hc]
    split
    · rename_i h
      subst h
      simp [hc, hother th' hne]
    · rfl
  · intro d
    rw [hmail d, getElem?_move hc, hi.mail th t d ht]
    by_cases h : c = d <;> simp [h]

theorem Inv.enqueue (hi : Inv config s) (hc : s.conns[c]? = some (Place.handshake th.pool))
    (hle : th.index ≤ config.ioThreads) :
    Inv config ({ s with conns := s.conns.set c (.queued th) }.send th (.conn c)) := by
  have hsenders := hi.handshake c _ hc
  obtain ⟨t, ht⟩ : ∃ t, s.threads th = some t := (hi.pool _ hsenders).2 _ hle
  rw [send_eq (show ({ s with conns := s.conns.set c (.queued th) } : Target).threads th = some t
    from ht)]
  refine hi.moves ht hc rfl rfl (fun _ h => nomatch h) (fun th' h => ⟨by simp, ?_⟩) hsenders
    (fun d => ?_) fun hmem => by simpa using hmem
  · exact fun he => h (Place.queued.inj he).symm
  · rw [List.count_append, hi.mail _ t d ht]
    by_cases h : c = d
    · subst h
      simp [hc]
    · simp [h]

theorem Inv.take (hi : Inv config s) {rest : List Msg} (ht : s.threads th = some t)
    (hmail : t.mailbox = .conn c :: rest) (status : Status) :
    Inv config ({ s with conns := s.conns.set c (.serving th) }.setThread th
      { status, mailbox := rest }) := by
  have hc : s.conns[c]? = some (Place.queued th) :=
    (hi.mem_mailbox ht).1 (by rw [hmail]; exact List.mem_cons_self ..)
  refine hi.moves ht hc rfl rfl (fun _ h => nomatch h) (fun th' h => ⟨?_, by simp⟩)
    (hi.queued c th hc).1 (fun d => ?_) fun hmem => by rw [hmail]; exact List.mem_cons_of_mem _ hmem
  · exact fun he => h (Place.queued.inj he).symm
  · have hcount := hi.mail th t d ht
    rw [hmail, List.count_cons] at hcount ⊢
    by_cases h : c = d
    · subst h
      simpa [hc] using hcount
    · simp [h]

theorem conns_exitThread (s : Target) (th : ThreadId) (mailbox : List Msg) (c : Nat)
    (hq : q ≠ .closed) :
    (s.exitThread th mailbox).conns[c]? = some q ↔ s.conns[c]? = some q ∧ q ≠ .serving th := by
  show (s.conns.map _)[c]? = some q ↔ _
  rw [List.getElem?_map, Option.map_eq_some_iff]
  constructor
  · rintro ⟨p, hp, hpq⟩
    split at hpq
    · exact absurd hpq.symm hq
    · rename_i hne
      exact ⟨hpq ▸ hp, hpq ▸ hne⟩
  · rintro ⟨hc, hne⟩
    exact ⟨q, hc, if_neg hne⟩

theorem queued_exitThread (s : Target) (th : ThreadId) (mailbox : List Msg) (c : Nat) (th' : ThreadId) :
    (s.exitThread th mailbox).conns[c]? = some (Place.queued th') ↔
      s.conns[c]? = some (Place.queued th') := by
  rw [conns_exitThread s th mailbox c (by simp)]
  simp

theorem Inv.exitThread (hi : Inv config s) (ht : s.threads th = some t) {mailbox : List Msg}
    (hcount : ∀ c, mailbox.count (Msg.conn c) = t.mailbox.count (Msg.conn c))
    (hshut : Msg.shutdown ∈ mailbox → Msg.shutdown ∈ t.mailbox) :
    Inv config (s.exitThread th mailbox) := by
  have hqueued := queued_exitThread s th mailbox
  refine hi.change ht ?_ ?_ ?_ ?_ ?_ hshut
  · rw [hi.active]
    generalize s.conns = conns
    induction conns with
    | nil => rfl
    | cons p ps ih =>
      have hle : ps.countP (· = Place.serving th) ≤ ps.countP Place.isOpen :=
        List.countP_mono_left fun q _ hq => by
          obtain rfl : q = .serving th := by simpa using hq
          rfl
      rw [List.map_cons, List.countP_cons, List.countP_cons, List.countP_cons, ← ih]
      by_cases hp : p = .serving th
      · subst hp
        simp [Place.isOpen]
      · simp only [hp, if_false, decide_false, Bool.false_eq_true]
        split <;> omega
  · intro c pool hc
    exact hi.handshake c pool ((conns_exitThread s th mailbox c (by simp)).1 hc).1
  · exact fun c hc => (hi.queued c th ((hqueued c th).1 hc)).1
  · exact fun c th' _ => hqueued c th'
  · intro c
    rw [hcount c, hi.mail th t c ht]
    exact if_congr (hqueued c th).symm rfl rfl

/-- Without an open connection nobody is in a mailbox or on the way to one. -/
theorem Inv.all_closed (hi : Inv config s) (h : s.active = 0) (hc : s.conns[c]? = some p) :
    p = .closed := by
  rw [hi.active, List.countP_eq_zero] at h
  have hp := h p (List.mem_of_getElem? hc)
  cases p with
  | closed => rfl
  | handshake _ | queued _ | serving _ => exact absurd rfl hp

theorem Inv.teardownPool (hi : Inv config s) (h : s.active = 0) (pool : Nat) :
    Inv config (s.teardownPool pool) := by
  have hthreads : ∀ th u, (s.teardownPool pool).threads th = some u → ∃ t, s.threads th = some t ∧
      ∀ c, u.mailbox.count (Msg.conn c) = t.mailbox.count (Msg.conn c) := by
    intro th u hu
    simp only [Target.teardownPool] at hu
    split at hu
    · obtain ⟨t, ht, rfl⟩ := Option.map_eq_some_iff.1 hu
      exact ⟨t, ht, fun c => by simp [List.count_append]⟩
    · exact ⟨u, hu, fun _ => rfl⟩
  refine ⟨hi.active, ?_, ?_, ?_, ?_, ?_, ?_⟩
  · intro c pool hc
    cases hi.all_closed h hc
  · intro c th hc
    cases hi.all_closed h hc
  · intro th u c hu
    obtain ⟨t, ht, hcount⟩ := hthreads th u hu
    exact (hcount c).trans (hi.mail th t c ht)
  · intro pool hp
    cases hp
  · intro th u hu
    obtain ⟨t, ht, -⟩ := hthreads th u hu
    exact hi.built th t ht
  · intro th u _ hp
    cases hp

theorem route_le {qid index : Nat} (h : route config qid = some index) : index ≤ config.ioThreads := by
  unfold route at h
  split at h
  · obtain rfl := Option.some.inj h
    exact Nat.zero_le _
  · split at h
    · cases h
    · obtain rfl := Option.some.inj h
      exact Nat.mod_lt _ (by omega)

/-! ## All that a step can do -/

inductive Stepped (config : PoolConfig) (s : Target) : PoolAction → Target → Prop where
  | accept {spawn : Option (Nat → Bool)} {u : Target} {p : Place} {active : Nat}
      (up : { s with idleSince := none }.ensurePoolUp config spawn = u)
      (permit : active = u.active + if p.isOpen then 1 else 0)
      (bound : active ≤ u.active ∨ active ≤ maxConnections) (out : ∀ th, p ≠ .queued th)
      (hand : ∀ pool, p = .handshake pool → u.senders = some pool) :
      Stepped config s (.accept spawn) { u with active, conns := u.conns ++ [p] }
  | closes {a : PoolAction} {c : Nat} {p : Place} (meets : s.MeetsThread config a)
      (place : s.conns[c]? = some p) (holds : p.isOpen = true) (out : ∀ th, p ≠ .queued th) :
      Stepped config s a (s.close c)
  | routed {c : Nat} {th : ThreadId} {qid : Option Nat} (route : s.routedTo config c qid = some th)
      (place : s.conns[c]? = some (.handshake th.pool)) (index : th.index ≤ config.ioThreads) :
      Stepped config s (.handshake c qid)
        ({ s with conns := s.conns.set c (.queued th) }.send th (.conn c))
  | turns {a : PoolAction} {th : ThreadId} {t t' : QueueThread} (thread : s.threads th = some t)
      (awake : t.status ≠ .gone) (rest : t'.mailbox.Sublist t.mailbox)
      (conns : ∀ c, t'.mailbox.count (Msg.conn c) = t.mailbox.count (Msg.conn c))
      (fails : t'.status = .gone ∧ a = .queueRuntime th false ∨
        t'.status ≠ .gone ∧ s.MeetsThread config a) : Stepped config s a (s.setThread th t')
  | takes {c : Nat} {th : ThreadId} {t : QueueThread} {rest : List Msg} (thread : s.threads th = some t)
      (awake : t.status ≠ .gone) (mail : t.mailbox = .conn c :: rest) :
      Stepped config s (.recv th) ({ s with conns := s.conns.set c (.serving th) }.setThread th
        { status := .running, mailbox := rest })
  | exits {a : PoolAction} {th : ThreadId} {t : QueueThread} {mailbox : List Msg}
      (thread : s.threads th = some t) (awake : t.status ≠ .gone) (rest : mailbox.Sublist t.mailbox)
      (conns : ∀ c, mailbox.count (Msg.conn c) = t.mailbox.count (Msg.conn c))
      (cause : a = .mailboxFails th ∨ a = .recv th ∧ Msg.shutdown ∈ t.mailbox) :
      Stepped config s a (s.exitThread th mailbox)
  | sends {a : PoolAction} {th : ThreadId} {msg : Msg} (meets : s.MeetsThread config a)
      (conn : ∀ c, msg ≠ .conn c) (shutdown : msg ≠ .shutdown) : Stepped config s a (s.send th msg)
  | idles {a : PoolAction} {since : Option Nat} (meets : s.MeetsThread config a)
      (clock : ∀ t, since = some t → s.idleSince = some t ∨ a = .tick t ∧ s.active = 0) :
      Stepped config s a { s with idleSince := since }
  | tearsDown {now pool grace : Nat} (configured : config.idleTeardown = some grace)
      (up : s.senders = some pool) (idle : s.active = 0) (elapsed : grace ≤ now - s.idleSince.getD now) :
      Stepped config s (.tick now) { s.teardownPool pool with idleSince := none }

theorem receive_spec (ht : s.threads th = some t) (hst : t.status ≠ .gone)
    (h : s.receive th t.mailbox = some s') : Stepped config s (.recv th) s' := by
  cases hmail : t.mailbox with
  | nil =>
    rw [hmail] at h
    cases h
  | cons msg rest =>
    rw [hmail] at h
    have hrest : rest.Sublist t.mailbox := hmail ▸ List.sublist_cons_self ..
    cases msg with
    | conn c =>
      obtain rfl := Option.some.inj h
      exact .takes ht hst hmail
    | stats | nsChanged =>
      obtain rfl := Option.some.inj h
      exact .turns ht hst hrest (fun c => by simp [hmail]) (.inr ⟨by simp, trivial⟩)
    | shutdown =>
      obtain rfl := Option.some.inj h
      exact .exits ht hst hrest (fun c => by simp [hmail]) (.inr ⟨rfl, by simp [hmail]⟩)

theorem step_spec (h : s.step config a = some s') : Stepped config s a s' := by
  cases a with
  | accept spawn =>
    obtain rfl := Option.some.inj h
    unfold handleAccept
    dsimp only
    split
    · exact .accept rfl rfl (.inl (Nat.le_refl _)) (fun _ h => nomatch h) fun _ h => nomatch h
    · rename_i pool hpool
      split
      · exact .accept rfl rfl (.inl (Nat.le_refl _)) (fun _ h => nomatch h) fun _ h => nomatch h
      · exact .accept rfl rfl (.inr (by omega)) (fun _ h => nomatch h) fun pool' h => by
          cases h; exact hpool
  | handshake c qid =>
    simp only [step] at h
    split at h
    · rename_i pool hc
      obtain rfl := Option.some.inj h
      unfold handshaken
      split
      · rename_i hnone
        exact .closes (by simp [MeetsThread, routedTo, hc, hnone]) hc rfl fun _ h => nomatch h
      · rename_i index hroute
        obtain ⟨q, -, hq⟩ := Option.bind_eq_some_iff.1 hroute
        exact .routed (by simp [routedTo, hc, hroute]) hc (route_le hq)
    · cases h
  | queueRuntime th ok =>
    obtain ⟨t, ht, h⟩ := Option.bind_eq_some_iff.1 h
    obtain ⟨hst, rfl⟩ := of_guard h
    refine .turns ht (by rw [hst]; decide) (List.Sublist.refl _) (fun _ => rfl) ?_
    cases ok with
    | true => exact .inr ⟨by simp, by simp [MeetsThread]⟩
    | false => exact .inl ⟨rfl, rfl⟩
  | recv th =>
    obtain ⟨t, ht, h⟩ := Option.bind_eq_some_iff.1 h
    obtain ⟨hst, h⟩ := Option.ite_none_right_eq_some.1 h
    refine receive_spec ht ?_ h
    rcases hst with h | h <;> rw [h] <;> decide
  | sleep th =>
    obtain ⟨t, ht, h⟩ := Option.bind_eq_some_iff.1 h
    obtain ⟨hst, rfl⟩ := of_guard h
    exact .turns ht (by rw [hst.1]; decide) (List.Sublist.refl _) (fun _ => rfl)
      (.inr ⟨by simp, trivial⟩)
  | mailboxFails th =>
    obtain ⟨t, ht, h⟩ := Option.bind_eq_some_iff.1 h
    obtain ⟨hst, rfl⟩ := of_guard h
    exact .exits ht (by rw [hst]; decide) (List.Sublist.refl _) (fun _ => rfl) (.inl rfl)
  | served c =>
    simp only [step] at h
    split at h
    · rename_i hc
      obtain rfl := Option.some.inj h
      exact .closes trivial hc rfl fun _ h => nomatch h
    · cases h
  | statsRequest index =>
    obtain rfl := Option.some.inj h
    cases s.senders with
    | none => exact .idles trivial fun _ h => .inl h
    | some pool => exact .sends trivial (fun _ h => nomatch h) fun h => nomatch h
  | notifyNsChanged =>
    obtain rfl := Option.some.inj h
    cases s.senders with
    | none => exact .idles trivial fun _ h => .inl h
    | some pool => exact .sends trivial (fun _ h => nomatch h) fun h => nomatch h
  | tick now =>
    obtain rfl := Option.some.inj h
    unfold maybeTeardown
    split
    · exact .idles trivial fun _ h => .inl h
    · exact .idles trivial fun _ h => nomatch h
    · rename_i grace pool hgrace hup
      split
      · rename_i hidle
        dsimp only
        split
        · rename_i helapsed
          exact .tearsDown hgrace hup hidle helapsed
        · refine .idles trivial fun t h => ?_
          cases hsince : s.idleSince with
          | none => exact .inr ⟨by rw [← Option.some.inj h, hsince]; rfl, hidle⟩
          | some since => exact .inl (by rw [← h, hsince]; rfl)
      · exact .idles trivial fun _ h => nomatch h

theorem Inv.step (hi : Inv config s) (h : s.step config a = some s') : Inv config s' := by
  cases step_spec h with
  | accept up permit _ out hand => exact (up ▸ (hi.idle none).ensurePoolUp _).join permit out hand
  | closes meets place holds out => exact hi.close place holds out
  | routed route place index => exact hi.enqueue place index
  | turns thread awake rest conns => exact hi.setThread thread conns fun h => rest.subset h
  | takes thread awake mail => exact hi.take thread mail .running
  | exits thread awake rest conns => exact hi.exitThread thread conns fun h => rest.subset h
  | sends meets conn shutdown => exact hi.send conn shutdown
  | idles => exact hi.idle _
  | tearsDown configured up idle => exact (hi.teardownPool idle _).idle none

/-! ## Threads that are gone -/

theorem isGone_congr (h : s'.threads th = s.threads th) : s'.isGone th = s.isGone th := by
  simp [isGone, h]

theorem isGone_setThread_self (s : Target) (th : ThreadId) (t : QueueThread) :
    (s.setThread th t).isGone th = decide (t.status = .gone) :=
  isGone_eq (setThread_self s th t)

theorem isGone_setThread_other (s : Target) {th th' : ThreadId} (t : QueueThread) (h : th' ≠ th) :
    (s.setThread th t).isGone th' = s.isGone th' :=
  isGone_congr (setThread_other s t h)

theorem isGone_send (s : Target) (th th' : ThreadId) (msg : Msg) :
    (s.send th' msg).isGone th = s.isGone th := by
  cases ht : s.threads th' with
  | none => rw [send_none ht]
  | some t =>
    rw [send_eq ht]
    by_cases h : th = th'
    · subst h
      rw [isGone_setThread_self, isGone_eq ht]
    · exact isGone_setThread_other s _ h

theorem isGone_teardownPool (s : Target) (pool : Nat) (th : ThreadId) :
    (s.teardownPool pool).isGone th = s.isGone th := by
  simp only [isGone, Target.teardownPool]
  split
  · cases s.threads th <;> rfl
  · rfl

theorem Inv.threads_ensurePoolUp (hi : Inv config s) (spawn : Option (Nat → Bool))
    (ht : s.threads th = some t) : (s.ensurePoolUp config spawn).threads th = some t := by
  unfold Target.ensurePoolUp
  split
  · exact ht
  · exact ht
  · have hb := hi.built th t ht
    exact (if_neg (by omega)).trans ht

theorem conns_ensurePoolUp (config : PoolConfig) (s : Target) (spawn : Option (Nat → Bool)) :
    (s.ensurePoolUp config spawn).conns = s.conns := by
  unfold Target.ensurePoolUp
  split <;> rfl

theorem queued_step (h : Stepped config s a s') (hc : s'.conns[c]? = some (Place.queued th)) :
    s.conns[c]? = some (Place.queued th) ∨
      ∃ qid, a = .handshake c qid ∧ s.routedTo config c qid = some th := by
  cases h with
  | accept up _ _ out =>
    left
    subst up
    dsimp only at hc
    rw [conns_ensurePoolUp] at hc
    exact (getElem?_join hc).resolve_right (out th)
  | @closes a d p meets place =>
    left
    rw [close, getElem?_move place] at hc
    split at hc
    · cases hc
    · exact hc
  | @routed d th' qid route place =>
    have hset : (s.conns.set d (.queued th'))[c]? = some (Place.queued th) := hc
    rw [getElem?_move place] at hset
    split at hset
    · rename_i hd
      subst hd
      obtain rfl := Place.queued.inj (Option.some.inj hset)
      exact .inr ⟨qid, rfl, route⟩
    · exact .inl hset
  | @takes d th' =>
    left
    have hc : (s.conns.set d (.serving th'))[c]? = some (Place.queued th) := hc
    rw [List.getElem?_set] at hc
    split at hc
    · split at hc <;> cases hc
    · exact hc
  | exits => exact .inl ((queued_exitThread s _ _ c th).1 hc)
  | turns | sends | idles | tearsDown => exact .inl hc

theorem isGone_step (hi : Inv config s) (h : Stepped config s a s') (ht : s.threads th = some t) :
    s'.isGone th = s.isGone th ∨ t.status ≠ .gone ∧
      (a = .queueRuntime th false ∨ a = .mailboxFails th ∨ Msg.shutdown ∈ t.mailbox) := by
  -- a thread that is set, and is not `th` or not gone
  have hset : ∀ {s₁ : Target} {th' : ThreadId} {u t' : QueueThread} {P : Prop}, s₁.threads = s.threads →
      s.threads th' = some u → u.status ≠ .gone → (th = th' → t = u → t'.status ≠ .gone ∨ P) →
      (s₁.setThread th' t').isGone th = s.isGone th ∨ t.status ≠ .gone ∧ P := by
    intro s₁ th' u t' P hsame hu hst hself
    by_cases hth : th = th'
    · subst hth
      obtain rfl := Option.some.inj (ht.symm.trans hu)
      refine (hself rfl rfl).imp (fun hne => ?_) fun hP => ⟨hst, hP⟩
      rw [isGone_setThread_self, isGone_eq ht, decide_eq_false hne, decide_eq_false hst]
    · exact .inl ((isGone_setThread_other _ _ hth).trans (isGone_congr (congrFun hsame th)))
  cases h with
  | @accept spawn _ _ _ up =>
    subst up
    exact .inl ((isGone_eq ((hi.idle none).threads_ensurePoolUp spawn ht)).trans (isGone_eq ht).symm)
  | routed | sends => exact .inl (isGone_send ..)
  | turns thread awake rest conns fails =>
    refine hset rfl thread awake fun hth _ => ?_
    rcases fails with ⟨-, rfl⟩ | ⟨hne, -⟩
    · exact .inr (.inl (hth ▸ rfl))
    · exact .inl hne
  | takes thread awake => exact hset rfl thread awake fun _ _ => .inl (by simp)
  | exits thread awake rest conns cause =>
    refine hset rfl thread awake fun hth heq => .inr ?_
    rcases cause with rfl | ⟨-, hshut⟩
    · exact .inr (.inl (hth ▸ rfl))
    · exact .inr (.inr (heq ▸ hshut))
  | tearsDown => exact .inl (isGone_teardownPool s _ th)
  | closes | idles => exact .inl rfl

theorem stuck_step (hi : Inv config s) (h : Stepped config s a s')
    (hc : s.conns[c]? = some (Place.queued th)) (hg : s.isGone th = true) :
    s'.conns[c]? = some (Place.queued th) ∧ s'.isGone th = true := by
  obtain ⟨-, t, ht⟩ := hi.queued c th hc
  have hst : t.status = .gone := of_decide_eq_true ((isGone_eq ht).symm.trans hg)
  refine ⟨?_, ((isGone_step hi h ht).resolve_right fun h => h.1 hst).trans hg⟩
  have hmove : ∀ {d : Nat} {p q : Place}, s.conns[d]? = some q → q ≠ .queued th →
      (s.conns.set d p)[c]? = some (Place.queued th) := by
    intro d p q hd hq
    rw [getElem?_move hd, if_neg]
    · exact hc
    · rintro rfl
      exact hq (Option.some.inj (hd.symm.trans hc))
  cases h with
  | accept up =>
    subst up
    dsimp only
    rw [conns_ensurePoolUp, List.getElem?_append_left (List.getElem?_eq_some_iff.1 hc).1]
    exact hc
  | closes meets place holds out => exact hmove place (out th)
  | routed route place => exact hmove place (by simp)
  | takes thread awake mail =>
    refine hmove ((hi.mem_mailbox thread).1 (by rw [mail]; exact List.mem_cons_self ..)) fun he => ?_
    obtain rfl := Place.queued.inj he
    obtain rfl := Option.some.inj (thread.symm.trans ht)
    exact awake hst
  | exits => exact (queued_exitThread s _ _ c th).2 hc
  | turns | sends | idles | tearsDown => exact hc

/-! ## Taking a connection -/

theorem Inv.takes {mailbox : List Msg} : ∀ {s : Target} {t : QueueThread}, Inv config s →
    s.threads th = some t → t.status = .running ∨ t.status = .waiting → t.mailbox = mailbox →
    s.conns[c]? = some (Place.queued th) →
    ∃ as s', (∀ a ∈ as, a = PoolAction.recv th) ∧ runFrom (Target.step config) s as = some s' ∧
      s'.conns[c]? = some (Place.serving th) := by
  induction mailbox with
  | nil =>
    intro s t hi ht _ hmail hc
    have hmem := (hi.mem_mailbox ht).2 hc
    rw [hmail] at hmem
    cases hmem
  | cons msg rest ih =>
    intro s t hi ht hst hmail hc
    -- the first message is taken; `c` may still be behind it
    have hstep : ∀ {s₁}, s.receive th t.mailbox = some s₁ → s.step config (.recv th) = some s₁ := by
      intro s₁ h
      simp only [Target.step, ht, Option.bind_eq_bind, Option.bind_some]
      rw [if_pos hst]
      exact h
    have hnext : ∀ {s₁}, s.receive th t.mailbox = some s₁ →
        s₁.threads th = some { status := .running, mailbox := rest } →
        s₁.conns[c]? = some (Place.queued th) → ∃ as s', (∀ a ∈ as, a = PoolAction.recv th) ∧
          runFrom (Target.step config) s as = some s' ∧ s'.conns[c]? = some (Place.serving th) := by
      intro s₁ h ht₁ hc₁
      obtain ⟨as, s', has, hrun, hc'⟩ := ih (hi.step (hstep h)) ht₁ (.inl rfl) rfl hc₁
      refine ⟨.recv th :: as, s', ?_, runFrom_cons.2 ⟨s₁, hstep h, hrun⟩, hc'⟩
      intro a ha
      rcases List.mem_cons.1 ha with rfl | ha
      · rfl
      · exact has a ha
    cases msg with
    | conn d =>
      have h : s.receive th t.mailbox = some ({ s with conns := s.conns.set d (.serving th) }.setThread
          th { status := .running, mailbox := rest }) := by
        rw [hmail]
        rfl
      have hd : s.conns[d]? = some (Place.queued th) :=
        (hi.mem_mailbox ht).1 (by rw [hmail]; exact List.mem_cons_self ..)
      by_cases hcd : d = c
      · subst hcd
        refine ⟨[.recv th], _, by simp, runFrom_cons.2 ⟨_, hstep h, rfl⟩, ?_⟩
        exact (getElem?_move hd d).trans (if_pos rfl)
      · refine hnext h (setThread_self ..) ?_
        exact ((getElem?_move hd c).trans (if_neg hcd)).trans hc
    | stats | nsChanged =>
      have h : s.receive th t.mailbox =
          some (s.setThread th { status := .running, mailbox := rest }) := by
        rw [hmail]
        rfl
      exact hnext h (setThread_self ..) hc
    | shutdown =>
      exact absurd (by rw [hmail]; exact List.mem_cons_self ..)
        (hi.running th t ht (hi.queued c th hc).1)

theorem Inv.canTake_iff (hi : Inv config s) (hc : s.conns[c]? = some (Place.queued th)) :
    s.CanTake config th c ↔ s.isGone th = false := by
  obtain ⟨-, t, ht⟩ := hi.queued c th hc
  rw [isGone_eq ht, decide_eq_false_iff_not]
  constructor
  · rintro ⟨as, s', hown, hrun, hc'⟩ hgone
    -- a thread that is gone has no step
    have hnone : ∀ a, a = PoolAction.queueRuntime th true ∨ a = PoolAction.recv th →
        s.step config a = none := by
      rintro a (rfl | rfl) <;> simp [Target.step, ht, hgone]
    cases as with
    | nil =>
      obtain rfl := Option.some.inj hrun
      cases hc.symm.trans hc'
    | cons a as =>
      obtain ⟨s₁, hs₁, -⟩ := runFrom_cons.1 hrun
      cases (hnone a (hown a (List.mem_cons_self ..))).symm.trans hs₁
  · intro hst
    have hloop : ∀ {s : Target} {t : QueueThread}, Inv config s → s.threads th = some t →
        t.status = .running ∨ t.status = .waiting → s.conns[c]? = some (Place.queued th) →
        s.CanTake config th c := by
      intro s t hi ht hst hc
      obtain ⟨as, s', has, hrun, hc'⟩ := hi.takes ht hst rfl hc
      exact ⟨as, s', fun a ha => .inr (has a ha), hrun, hc'⟩
    cases hstatus : t.status with
    | gone => exact absurd hstatus hst
    | running => exact hloop hi ht (.inl hstatus) hc
    | waiting => exact hloop hi ht (.inr hstatus) hc
    | starting =>
      have hs : s.step config (.queueRuntime th true) =
          some (s.setThread th { t with status := .running }) := by
        simp [Target.step, ht, hstatus]
      obtain ⟨as, s', has, hrun, hc'⟩ := hloop (hi.step hs) (setThread_self ..) (.inl rfl) hc
      refine ⟨.queueRuntime th true :: as, s', ?_, runFrom_cons.2 ⟨_, hs, hrun⟩, hc'⟩
      intro a ha
      rcases List.mem_cons.1 ha with rfl | ha
      · exact .inl rfl
      · exact has a ha

def Live (s : Target) : Prop :=
  ∀ (c : Nat) th, s.conns[c]? = some (Place.queued th) → s.isGone th = false

theorem isGone_handshake {qid : Option Nat} (h : s.step config (.handshake c qid) = some s')
    (th : ThreadId) : s'.isGone th = s.isGone th := by
  simp only [Target.step] at h
  split at h
  · obtain rfl := Option.some.inj h
    unfold Target.handshaken
    split
    · rfl
    · exact isGone_send _ _ _ _
  · cases h

theorem Live.step (hi : Inv config s) (hl : s.Live) (hok : s.MeetsThread config a)
    (h : s.step config a = some s') : s'.Live := by
  intro c th hc
  have hs := step_spec h
  by_contra hgone
  rw [Bool.not_eq_false] at hgone
  rcases queued_step hs hc with hq | ⟨qid, rfl, hroute⟩
  · obtain ⟨hsenders, t, ht⟩ := hi.queued c th hq
    have hholds : s.holdsConn th = true := (holdsConn_iff ht).2 ⟨c, (hi.mem_mailbox ht).2 hq⟩
    rcases isGone_step hi hs ht with hsame | ⟨-, rfl | rfl | hshut⟩
    · cases (hl c th hq).symm.trans (hsame.symm.trans hgone)
    · cases (hok rfl).symm.trans hholds
    · cases (show s.holdsConn th = false from hok).symm.trans hholds
    · exact hi.running th t ht hsenders hshut
  · have hfine : (s.routedTo config c qid).any s.isGone = false := hok
    rw [hroute] at hfine
    rw [isGone_handshake h] at hgone
    cases hfine.symm.trans hgone

theorem Live.of_step (hl : s'.Live) (hi : Inv config s) (h : s.step config a = some s') : s.Live := by
  intro c th hc
  by_contra hgone
  rw [Bool.not_eq_false] at hgone
  obtain ⟨hc', hg'⟩ := stuck_step hi (step_spec h) hc hgone
  cases (hl c th hc').symm.trans hg'

theorem Live.broken (hi : Inv config s) (hok : ¬ s.MeetsThread config a)
    (h : s.step config a = some s') : ¬ s'.Live := by
  intro hl
  have hs := step_spec h
  -- a connection waits for a thread that goes
  have hholds : ∀ {th : ThreadId} {t : QueueThread}, s.threads th = some t →
      s.holdsConn th = true → (∀ c : Nat, s.conns[c]? = some (Place.queued th) →
        s'.conns[c]? = some (Place.queued th)) → s'.isGone th = true → False := by
    intro th t ht hh hkeep hgone
    obtain ⟨c, hc⟩ := (holdsConn_iff ht).1 hh
    cases (hl c th (hkeep c ((hi.mem_mailbox ht).1 hc))).symm.trans hgone
  cases hs with
  | @routed c th qid route place =>
    have hgone : s.isGone th = true := by simpa [MeetsThread, route] using hok
    have hc : (s.conns.set c (.queued th))[c]? = some (Place.queued th) :=
      (getElem?_move place c).trans (if_pos rfl)
    cases (hl c th hc).symm.trans ((isGone_send ..).trans hgone)
  | @turns a th t t' thread awake rest conns fails =>
    rcases fails with ⟨hst, rfl⟩ | ⟨-, meets⟩
    · have hh : s.holdsConn th = true := by simpa [MeetsThread] using hok
      refine hholds thread hh (fun c hc => hc) ?_
      rw [isGone_setThread_self, hst]
      rfl
    · exact hok meets
  | @exits a th t mailbox thread awake rest conns cause =>
    rcases cause with rfl | ⟨rfl, -⟩
    · have hh : s.holdsConn th = true := by simpa [MeetsThread] using hok
      exact hholds thread hh (fun c => (queued_exitThread s th _ c th).2) (isGone_setThread_self _ th _)
    · exact hok trivial
  | closes meets | sends meets | idles meets => exact hok meets
  | accept | takes | tearsDown => exact hok trivial

theorem Inv.live_step (hi : Inv config s) (h : s.step config a = some s') :
    s'.Live ↔ s.Live ∧ s.MeetsThread config a :=
  ⟨fun hl => ⟨hl.of_step hi h, not_not.1 fun hok => Live.broken hi hok h hl⟩,
    fun hl => Live.step hi hl.1 hl.2 h⟩

end Target

/-- **Every connection in a mailbox can still be taken** by its thread exactly in the runs in which no
connection was routed to a thread that had failed and no thread failed with a connection waiting; in
every run the permits taken are those of the connections that are not closed. -/
theorem routed_connections_taken_iff (config : PoolConfig) (as : List PoolAction) (s : Target)
    (hrun : runFrom (Target.step config) .start as = some s) :
    s.active = s.conns.countP Place.isOpen ∧
      ((∀ (c : Nat) th, s.conns[c]? = some (Place.queued th) → s.CanTake config th c) ↔
        StepsOk (Target.step config) (Target.MeetsThread config) .start as) := by
  have hstart : Target.Live .start := fun c th hc => by simp [Target.start] at hc
  have hi : s.Inv config :=
    @runFrom_invariant _ _ (Target.step config) (Target.Inv config) Target.Inv.step as _ _ .start hrun
  refine ⟨hi.active, ?_⟩
  have hlive := @runFrom_good_iff _ _ (Target.step config) (Target.Inv config) Target.Live
    (Target.MeetsThread config) (fun hi h => ⟨hi.step h, hi.live_step h⟩) as _ _ .start hrun
  rw [← hlive.trans (and_iff_right hstart)]
  exact forall_congr' fun c => forall_congr' fun th => imp_congr_right fun hc => hi.canTake_iff hc

def twoIoThreads : PoolConfig := { ioThreads := 2, idleTeardown := some 10 }

theorem routed_connections_taken_iff_first_thread :
    ∃ s, runFrom (Target.step twoIoThreads) .start
        [.accept (some fun _ => true), .queueRuntime ⟨0, 2⟩ false, .handshake 0 (some 1)] = some s ∧
      s.conns[0]? = some (.queued ⟨0, 1⟩) ∧ s.CanTake twoIoThreads ⟨0, 1⟩ 0 := by
  have hsome : (runFrom (Target.step twoIoThreads) .start
      [.accept (some fun _ => true), .queueRuntime ⟨0, 2⟩ false, .handshake 0 (some 1)]).bind
        (fun s => s.conns[0]?) = some (.queued ⟨0, 1⟩) := by
    decide +kernel
  obtain ⟨s, hs, hc⟩ := Option.bind_eq_some_iff.1 hsome
  exact ⟨s, hs, hc,
    ((routed_connections_taken_iff twoIoThreads _ s hs).2.2 (by decide +kernel)) 0 _ hc⟩

/-- The first IO thread fails to build its ring after a connection of queue 1 was routed to it: long
after, the connection is in its mailbox, its permit is taken and the pool is up. -/
theorem failed_ring_strands_connection :
    ∃ s, runFrom (Target.step twoIoThreads) .start
        [.accept (some fun _ => true), .handshake 0 (some 1), .queueRuntime ⟨0, 1⟩ false,
          .tick 0, .tick 1000] = some s ∧
      s.conns = [.queued ⟨0, 1⟩] ∧ s.active = 1 ∧ s.senders = some 0 ∧
      ¬ s.CanTake twoIoThreads ⟨0, 1⟩ 0 := by
  have hsome : (runFrom (Target.step twoIoThreads) .start
      [.accept (some fun _ => true), .handshake 0 (some 1), .queueRuntime ⟨0, 1⟩ false,
        .tick 0, .tick 1000]).map (fun s => (s.conns, s.active, s.senders, s.isGone ⟨0, 1⟩)) =
      some ([.queued ⟨0, 1⟩], 1, some 0, true) := by
    decide +kernel
  obtain ⟨s, hs, h⟩ := Option.map_eq_some_iff.1 hsome
  simp only [Prod.mk.injEq] at h
  obtain ⟨hconns, hactive, hsenders, hgone⟩ := h
  have hi : s.Inv twoIoThreads := @runFrom_invariant _ _ (Target.step twoIoThreads)
    (Target.Inv twoIoThreads) Target.Inv.step _ _ _ .start hs
  refine ⟨s, hs, hconns, hactive, hsenders, fun htake => ?_⟩
  cases ((hi.canTake_iff (by rw [hconns]; rfl)).1 htake).symm.trans hgone

end Ioutgt.Harness
