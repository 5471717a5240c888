import Ioutgt.Core.Proof.Registry
import Ioutgt.Nvme.Execute

/-!
# What a dispatched command does to its queue and the registry

* `Admin.execute_state`: an admin command changes only what the host may set and what it consumes;
* `connectAdmin_spec`, `connectIo_spec`: the ways a Connect can go;
* `Executed`, `execute_spec`: all that any command can do to the identity and the binding of its
  queue and to the registry. Dispatch does not panic.
-/

namespace Ioutgt.Nvme

open Lib Ioutgt.Core

variable {B ε : Type} {tables : Admin.Tables B}

/-! ## Admin commands -/

theorem Admin.execute_state [Backend B] (port : PortConfig) (tables : Admin.Tables B)
    (a : AdminState) (sqe : Sqe) :
    ∃ katoMs aec nsChanged events,
      (Admin.execute port tables a sqe).2 = { a with katoMs, aec, nsChanged, events } := by
  have hset : ∃ katoMs aec nsChanged events,
      (Admin.setFeatures port a sqe).2 = { a with katoMs, aec, nsChanged, events } := by
    unfold Admin.setFeatures
    dsimp only
    repeat' split
    all_goals exact ⟨_, _, _, _, rfl⟩
  have hlog : ∃ katoMs aec nsChanged events,
      (Admin.getLogPage port a sqe).2 = { a with katoMs, aec, nsChanged, events } := by
    unfold Admin.getLogPage
    dsimp only
    repeat' split
    all_goals exact ⟨_, _, _, _, rfl⟩
  have haer : ∃ katoMs aec nsChanged events,
      (Admin.asyncEvent a).2 = { a with katoMs, aec, nsChanged, events } := by
    unfold Admin.asyncEvent
    repeat' split
    all_goals exact ⟨_, _, _, _, rfl⟩
  unfold Admin.execute
  split
  · exact ⟨_, _, _, _, rfl⟩
  split
  · exact ⟨_, _, _, _, rfl⟩
  split
  · exact hset
  split
  · exact hlog
  split
  · exact ⟨_, _, _, _, rfl⟩
  split
  · exact haer
  · exact ⟨_, _, _, _, rfl⟩

structure SameEvents (a a' : AdminState) : Prop where
  events : a'.events = a.events
  nsChanged : a'.nsChanged = a.nsChanged
  closing : a'.closing = a.closing

theorem SameEvents.refl (a : AdminState) : SameEvents a a := ⟨rfl, rfl, rfl⟩

/-! ## Connect -/

namespace FabricsExec

variable {ctx : ConnCtx B} {a : AdminState} {cmd : ConnectCommand}

def request (ctx : ConnCtx B) (cmd : ConnectCommand) : Registry.Request :=
  let discovery := nqnStr ctx.connectData.subsysnqn == discoveryNqn
  { subsysNqn := nqnStr ctx.connectData.subsysnqn
    hostnqn := nqnStr ctx.connectData.hostnqn
    maxQid := if discovery then 0 else ctx.port.maxQid
    katoMs := if cmd.kato = 0 ∧ discovery then 120000 else cmd.kato
    adminQueue := ctx.queueInfo
    discovery := discovery }

theorem createController_spec (ctx : ConnCtx B) (a : AdminState) (cmd : ConnectCommand)
    (r : Registry) :
    (∃ out, (createController ctx a cmd r : Checked ε _) = .ok (out, a, r)) ∨
      ∃ out id traffic, r.slice.Has id ∧ r.controllers id = none ∧
        (createController ctx a cmd r : Checked ε _) = .ok (out,
          { a with cntlid := id, katoMs := (request ctx cmd).katoMs, traffic },
          r.insert (request ctx cmd) id) := by
  unfold createController
  dsimp only
  split
  · exact .inl ⟨_, rfl⟩
  · obtain ⟨-, hall⟩ | ⟨id, hid, hfree, hall⟩ := r.allocate_spec (ε := ε) (request ctx cmd)
    · unfold request at hall
      rw [hall]
      exact .inl ⟨_, rfl⟩
    · unfold request at hall
      rw [hall]
      exact .inr ⟨_, id, _, hid, hfree, rfl⟩

/-- What resolving the subsystem of an admin Connect makes of the binding: discovery needs none; any
other subsystem is a configured one that admits the host. -/
def Resolved (ctx : ConnCtx B) (old new : Option SubsystemId) : Prop :=
  nqnStr ctx.connectData.subsysnqn = discoveryNqn ∧ new = old ∨
    nqnStr ctx.connectData.subsysnqn ≠ discoveryNqn ∧
      ∃ s, ctx.port.subsystem (nqnStr ctx.connectData.subsysnqn) = some s ∧
        s.admits (nqnStr ctx.connectData.hostnqn) = true ∧ new = some s

theorem connectAdmin_spec (ctx : ConnCtx B) (a : AdminState) (cmd : ConnectCommand)
    (r : Registry) :
    (∃ out, (connectAdmin ctx a cmd r : Checked ε _) = .ok (out, a, r)) ∨
      a.cntlid = 0 ∧ ∃ a₁ : AdminState, Resolved ctx a.subsys a₁.subsys ∧ a₁.cntlid = 0 ∧
        SameEvents a a₁ ∧ ((∃ out, (connectAdmin ctx a cmd r : Checked ε _) = .ok (out, a₁, r)) ∨
          ∃ out id traffic, r.slice.Has id ∧ r.controllers id = none ∧
            (connectAdmin ctx a cmd r : Checked ε _) = .ok (out,
              { a₁ with cntlid := id, katoMs := (request ctx cmd).katoMs, traffic },
              r.insert (request ctx cmd) id)) := by
  unfold connectAdmin
  dsimp only
  split
  · exact .inl ⟨_, rfl⟩
  · rename_i hc
    have hfresh : a.cntlid = 0 := by simpa using hc
    split
    · rename_i hd
      exact .inr ⟨hfresh, { a with discovery := true }, .inl ⟨hd, rfl⟩, hfresh, ⟨rfl, rfl, rfl⟩,
        createController_spec ctx _ cmd r⟩
    · rename_i hd
      split
      · exact .inl ⟨_, rfl⟩
      · rename_i s hs
        split
        · exact .inl ⟨_, rfl⟩
        · rename_i hadm
          exact .inr ⟨hfresh, { a with subsys := some s },
            .inr ⟨hd, s, hs, by simpa using hadm, rfl⟩, hfresh, ⟨rfl, rfl, rfl⟩,
            createController_spec ctx _ cmd r⟩

theorem connectIo_spec (ctx : ConnCtx B) (i : IoState B) (r : Registry) :
    (∃ out, connectIo ctx i r = (out, i, r)) ∨
      i.cntlid = 0 ∧ ∃ out entry, r.controllers ctx.connectData.cntlid = some entry ∧
        entry.hostnqn = nqnStr ctx.connectData.hostnqn ∧ 1 ≤ ctx.qid ∧ ctx.qid ≤ entry.maxQid ∧
        connectIo ctx i r = (out,
          bindIo ctx i ctx.connectData.cntlid
            { entry with queues := entry.queues ++ [ctx.queueInfo] },
          r.setEntry ctx.connectData.cntlid
            { entry with queues := entry.queues ++ [ctx.queueInfo] }) := by
  unfold connectIo
  split
  · exact .inl ⟨_, rfl⟩
  · rename_i hc
    have hfresh : i.cntlid = 0 := by simpa using hc
    dsimp only
    obtain ⟨e, hins⟩ | ⟨entry, hlive, hhost, hpos, hmax, -, hins⟩ :=
      r.installIoQueue_spec ctx.connectData.cntlid (nqnStr ctx.connectData.hostnqn) ctx.queueInfo
    · rw [hins]
      exact .inl ⟨_, rfl⟩
    · rw [hins]
      exact .inr ⟨hfresh, _, entry, hlive, hhost, hpos, hmax, rfl⟩

end FabricsExec

/-! ## Every command -/

open FabricsExec

/-- What a command can do to its queue's identity and to the registry. -/
inductive Executed (tables : Admin.Tables B) (ctx : ConnCtx (Volume B)) (r : Registry) :
    ConnCtx (Volume B) → Registry → Prop where
  | admin {a a' : AdminState} (role : ctx.role = .admin a) (cntlid : a'.cntlid = a.cntlid)
    (subsys : a'.subsys = a.subsys) : Executed tables ctx r { ctx with role := .admin a' } r
  | resolved {a a' : AdminState} (role : ctx.role = .admin a) (fresh : a.cntlid = 0)
    (subsys : Resolved ctx a.subsys a'.subsys) (cntlid : a'.cntlid = 0) :
    Executed tables ctx r { ctx with role := .admin a' } r
  | created {a a' : AdminState} {cmd : ConnectCommand} (role : ctx.role = .admin a)
    (fresh : a.cntlid = 0) (subsys : Resolved ctx a.subsys a'.subsys)
    (has : r.slice.Has a'.cntlid) (free : r.controllers a'.cntlid = none) :
    Executed tables ctx r { ctx with role := .admin a' } (r.insert (request ctx cmd) a'.cntlid)
  | io {i i' : IoState (Volume B)} (role : ctx.role = .io i) (cntlid : i'.cntlid = i.cntlid)
    (subsys : i'.subsys = i.subsys)
    (cache : i'.nsCache = i.nsCache ∨
      ∃ s, i.subsys = some s ∧ i'.nsCache.map = some (tables s.nqn).namespaces) :
    Executed tables ctx r { ctx with role := .io i' } r
  | bound {i : IoState (Volume B)} {entry : ControllerEntry} (role : ctx.role = .io i)
    (fresh : i.cntlid = 0) (live : r.controllers ctx.connectData.cntlid = some entry)
    (host : entry.hostnqn = nqnStr ctx.connectData.hostnqn) (qid : 1 ≤ ctx.qid)
    (max : ctx.qid ≤ entry.maxQid) :
    Executed tables ctx r
      { ctx with role := .io (bindIo ctx i ctx.connectData.cntlid
          { entry with queues := entry.queues ++ [ctx.queueInfo] }) }
      (r.setEntry ctx.connectData.cntlid { entry with queues := entry.queues ++ [ctx.queueInfo] })

theorem Executed.same {ctx : ConnCtx (Volume B)} {r : Registry} : Executed tables ctx r ctx r := by
  cases hrole : ctx.role with
  | admin a =>
    have h : Executed tables ctx r { ctx with role := .admin a } r := .admin hrole rfl rfl
    rwa [← hrole] at h
  | io i =>
    have h : Executed tables ctx r { ctx with role := .io i } r := .io hrole rfl rfl (.inl rfl)
    rwa [← hrole] at h

theorem Executed.of_heard {ctx ctx' : ConnCtx (Volume B)} {r r' : Registry} {now : Nat}
    (h : Executed tables (ctx.heard now) r ctx' r') : Executed tables ctx r ctx' r' := by
  unfold ConnCtx.heard at h
  cases hrole : ctx.role with
  | io i =>
    rw [hrole] at h
    exact h
  | admin a =>
    rw [hrole] at h
    cases h with
    | admin role cntlid subsys =>
      obtain rfl := Role.admin.inj role
      exact .admin hrole cntlid subsys
    | resolved role fresh subsys cntlid =>
      obtain rfl := Role.admin.inj role
      exact .resolved hrole fresh subsys cntlid
    | created role fresh subsys has free =>
      obtain rfl := Role.admin.inj role
      exact .created hrole fresh subsys has free
    | io role => cases role
    | bound role => cases role

theorem fabrics_spec (tables : Admin.Tables B) (ctx : ConnCtx (Volume B)) (r : Registry)
    (sqe : Sqe) :
    ∃ out ctx' r', (FabricsExec.execute ctx sqe r : Checked ε _) = .ok (out, ctx', r') ∧
      Executed tables ctx r ctx' r' := by
  unfold FabricsExec.execute
  dsimp only
  split
  · -- Connect
    unfold FabricsExec.connect
    dsimp only
    split
    · exact ⟨_, ctx, r, rfl, .same⟩
    · cases hrole : ctx.role with
      | admin a =>
        dsimp only
        obtain ⟨out, hc⟩ | ⟨hfresh, a₁, hres, hzero, -,
            ⟨out, hc⟩ | ⟨out, id, traffic, hid, hfree, hc⟩⟩ :=
          connectAdmin_spec (ε := ε) ctx a (ConnectCommand.refFromBytes sqe.asBytes) r
        · rw [hc]
          exact ⟨_, _, _, rfl, .admin hrole rfl rfl⟩
        · rw [hc]
          exact ⟨_, _, _, rfl, .resolved hrole hfresh hres hzero⟩
        · rw [hc]
          exact ⟨_, _, _, rfl, .created hrole hfresh hres hid hfree⟩
      | io i =>
        dsimp only
        obtain ⟨out, hc⟩ | ⟨hfresh, out, entry, hlive, hhost, hpos, hmax, hc⟩ := connectIo_spec ctx i r
        · rw [hc]
          exact ⟨_, _, _, rfl, .io hrole rfl rfl (.inl rfl)⟩
        · rw [hc]
          exact ⟨_, _, _, rfl, .bound hrole hfresh hlive hhost hpos hmax⟩
  · split
    · -- Property Get/Set
      unfold FabricsExec.property
      cases hrole : ctx.role with
      | io i => exact ⟨_, ctx, r, rfl, .same⟩
      | admin a =>
        dsimp only
        split
        · exact ⟨_, ctx, r, rfl, .same⟩
        · refine ⟨_, _, r, rfl, .admin hrole ?_ ?_⟩
          all_goals
            unfold FabricsExec.propertySet
            repeat' split
            all_goals rfl
    · exact ⟨_, ctx, r, rfl, .same⟩

variable [Backend B]

theorem Io.execute_state (i : IoState (Volume B)) (tables : Admin.Tables B) (slot : SlotView)
    (sqe : Sqe) :
    (Io.execute i tables slot sqe).2.cntlid = i.cntlid ∧
      (Io.execute i tables slot sqe).2.subsys = i.subsys ∧
      ((Io.execute i tables slot sqe).2.nsCache = i.nsCache ∨
        ∃ s, i.subsys = some s ∧
          (Io.execute i tables slot sqe).2.nsCache.map = some (tables s.nqn).namespaces) := by
  unfold Io.execute
  cases hs : i.subsys with
  | none => exact ⟨rfl, hs, .inl rfl⟩
  | some s =>
    have hcache := i.nsCache.get_cases (tables s.nqn).generation (tables s.nqn).namespaces
    have hkeep : (i.nsCache.get (tables s.nqn).generation (tables s.nqn).namespaces).1 = i.nsCache ∨
        ∃ s', some s = some s' ∧
          (i.nsCache.get (tables s.nqn).generation (tables s.nqn).namespaces).1.map
            = some (tables s'.nqn).namespaces := by
      rcases hcache with ⟨-, hm⟩ | ⟨-, hm⟩
      · exact .inr ⟨s, rfl, hm⟩
      · exact .inl hm
    dsimp only
    split
    · exact ⟨rfl, rfl, hkeep⟩
    · exact ⟨rfl, rfl, hkeep⟩

/-- **What dispatching a command comes to.** -/
theorem execute_spec (ctx : ConnCtx (Volume B)) (tables : Admin.Tables B) (r : Registry) (now : Nat)
    (slot : SlotView) (sqe : Sqe) :
    ∃ reply ctx' r', (execute ctx tables r now slot sqe : Checked ε _) = .ok (reply, ctx', r') ∧
      Executed tables ctx r ctx' r' := by
  unfold execute
  dsimp only
  split
  · obtain ⟨out, ctx', r', hf, hex⟩ := fabrics_spec (ε := ε) tables (ctx.heard now) r sqe
    rw [hf]
    exact ⟨_, ctx', r', rfl, hex.of_heard⟩
  · unfold ConnCtx.heard
    cases hrole : ctx.role with
    | admin a =>
      dsimp only
      split
      · exact ⟨_, _, r, rfl, .admin hrole rfl rfl⟩
      · obtain ⟨katoMs, aec, nsChanged, events, ha⟩ :=
          Admin.execute_state ctx.port tables { a with lastHeard := now } sqe
        generalize Admin.execute ctx.port tables { a with lastHeard := now } sqe = x at ha ⊢
        obtain ⟨out, a'⟩ := x
        obtain rfl : a' = _ := ha
        cases out with
        | some out => exact ⟨_, _, r, rfl, .admin hrole rfl rfl⟩
        | none => exact ⟨_, _, r, rfl, .admin hrole rfl rfl⟩
    | io i =>
      obtain ⟨hcntlid, hsubsys, hcache⟩ := Io.execute_state i tables slot sqe
      rw [hrole]
      exact ⟨_, _, r, rfl, .io hrole hcntlid hsubsys hcache⟩

/-! ## Which backend an IO command calls -/

def IoOp.backend : IoOp B → Option B
  | .lease _ => none
  | .readSegs b _ _ _ => some b
  | .writeSegs b _ _ _ => some b
  | .flush b => some b
  | .discard b _ => some b
  | .writeZeroes b _ => some b

/-- The calls that serving a command on `b` can make; what is written is what is in the slot. -/
inductive IoOp.Served (b : B) (slot : SlotView) : IoOp B → Prop
  | lease (len : Nat) : Served b slot (.lease len)
  | readSegs (slba : Nat) (segs : List (List UInt8)) (total : Nat) :
    Served b slot (.readSegs b slba segs total)
  | writeSegs (slba : Nat) : Served b slot (.writeSegs b slba slot.segs slot.dataLen)
  | flush : Served b slot (.flush b)
  | discard (ranges : List LbaRange) : Served b slot (.discard b ranges)
  | writeZeroes (range : LbaRange) : Served b slot (.writeZeroes b range)

variable {b : B} {slot : SlotView} {sqe : Sqe}

omit [Backend B] in
theorem IoOp.Served.on {op : IoOp B} (h : op.Served b slot) {b' : B}
    (hb : op.backend = some b') : b' = b := by
  cases h with
  | lease => cases hb
  | _ => exact (Option.some.inj hb).symm

theorem read_served : (Io.read b sqe).Only (IoOp.Served b slot) := by
  refine Prog.only_bind (Prog.only_ofChecked _) ?_
  rintro (code | ⟨rw, len⟩)
  · trivial
  · refine ⟨.lease _, fun segs => ⟨.readSegs .., ?_⟩⟩
    rintro (e | bytes) <;> trivial

theorem write_served : (Io.write b slot sqe).Only (IoOp.Served b slot) := by
  refine Prog.only_bind (Prog.only_ofChecked _) ?_
  rintro (code | ⟨rw, len⟩)
  · trivial
  · dsimp only
    split
    · trivial
    · rename_i hlen
      obtain rfl := not_not.1 hlen
      refine Prog.only_bind ⟨.writeSegs .., fun _ => trivial⟩ ?_
      rintro (e | u)
      · trivial
      · dsimp only
        split
        · exact ⟨.flush, fun _ => trivial⟩
        · trivial

omit [Backend B] in
theorem dsm_served : (Io.dsm b slot sqe).Only (IoOp.Served b slot) := by
  unfold Io.dsm
  dsimp only
  split
  · trivial
  split
  · trivial
  · exact ⟨.discard _, fun _ => trivial⟩

theorem serve_served : (Io.serve b slot sqe).Only (IoOp.Served b slot) := by
  unfold Io.serve
  split
  · exact ⟨.flush, fun _ => trivial⟩
  split
  · exact read_served
  split
  · exact write_served
  split
  · exact Prog.only_bind (Prog.only_check _) fun nlb => ⟨.writeZeroes _, fun _ => trivial⟩
  split
  · exact dsm_served
  · trivial

/-- An IO command makes calls only on a bound queue, and to a backend in the table its queue has of
the subsystem it is bound to. -/
theorem Io.execute_calls {i : IoState (Volume B)} {op : IoOp B} {ops : List (IoOp B)}
    {out : Option (Except Panic Outcome)}
    (h : (Io.execute i tables slot sqe).1.Runs (op :: ops) out) :
    ∃ s, i.subsys = some s ∧ ∃ table : NsMap (Volume B),
      (table = (tables s.nqn).namespaces ∨ i.nsCache.map = some table) ∧
      ∃ ns ∈ table, ∀ o ∈ op :: ops, ∀ b, o.backend = some b → b = ns.backend.backend := by
  unfold Io.execute at h
  cases hs : i.subsys with
  | none =>
    rw [hs] at h
    cases h
  | some s =>
    rw [hs] at h
    dsimp only at h
    refine ⟨s, rfl, (i.nsCache.get (tables s.nqn).generation (tables s.nqn).namespaces).2, ?_, ?_⟩
    · rcases i.nsCache.get_cases (tables s.nqn).generation (tables s.nqn).namespaces with
        ⟨ht, -⟩ | ⟨ht, -⟩
      · exact .inl ht
      · exact .inr ht
    · split at h
      · cases h
      · rename_i ns hns
        exact ⟨ns, List.mem_of_find?_eq_some hns,
          fun o ho _ hb => (Prog.only_sound serve_served h o ho).on hb⟩

end Ioutgt.Nvme
