import Ioutgt.Nvme.Execute

/-!
# What CSTS reports after every sequence of CC writes

* `writeCc_reports`: one write keeps CSTS in step with CC exactly when the write is in step with
  the value before it.
* `Orderly`: the condition on a whole sequence of writes.
-/

namespace Ioutgt.Nvme

open Lib Ioutgt.Core

variable {r : RegisterState} {a : AdminState}

namespace RegisterState

/-! ## One write -/

/-- CSTS agrees with the value that CC holds. -/
structure Reports (r : RegisterState) : Prop where
  rdy : r.ready = Cc.enabled r.cc
  shst : r.shutdownComplete = Cc.shutdown r.cc

/-- The shutdown status field is never anything but clear or complete. -/
def ShstOk (r : RegisterState) : Prop :=
  r.csts &&& Csts.shstMask = 0 ∨ r.csts &&& Csts.shstMask = Csts.shstComplete

/-- A write that asks for a shutdown leaves EN alone, and no other write follows one that did. -/
def InStep (before value : BitVec 32) : Bool :=
  if Cc.shutdown value then Cc.enabled value == Cc.enabled before else !Cc.shutdown before

/-- What a CC write does to CSTS, by the bits that decide it. -/
theorem writeCc_csts (r : RegisterState) (value : BitVec 32) :
    (r.writeCc value).2 = { r with
      cc := value
      csts := match Cc.shutdown value, Cc.enabled r.cc, Cc.enabled value with
        | true, _, _ => r.csts ||| Csts.shstComplete
        | false, false, true => r.csts ||| Csts.rdy
        | false, true, false => r.csts &&& ~~~Csts.rdy
        | false, _, _ => r.csts } := by
  unfold writeCc
  cases Cc.shutdown value <;> cases Cc.enabled r.cc <;> cases Cc.enabled value <;> rfl

theorem writeCc_cc (r : RegisterState) (value : BitVec 32) : (r.writeCc value).2.cc = value := by
  rw [writeCc_csts]

/-! ### The fields of CSTS are disjoint -/

theorem or_shst_rdy (c : BitVec 32) : (c ||| Csts.shstComplete) &&& Csts.rdy = c &&& Csts.rdy := by
  rw [BitVec.and_or_distrib_right, show Csts.shstComplete &&& Csts.rdy = 0#32 by decide,
    BitVec.or_zero]

theorem or_rdy_rdy (c : BitVec 32) : (c ||| Csts.rdy) &&& Csts.rdy = Csts.rdy := by
  ext i hi
  simp only [BitVec.getElem_and, BitVec.getElem_or]
  cases Csts.rdy[i] <;> simp

theorem clear_rdy_rdy (c : BitVec 32) : c &&& ~~~Csts.rdy &&& Csts.rdy = 0#32 := by
  rw [BitVec.and_assoc, show ~~~Csts.rdy &&& Csts.rdy = 0#32 by decide, BitVec.and_zero]

theorem or_rdy_shst (c : BitVec 32) :
    (c ||| Csts.rdy) &&& Csts.shstMask = c &&& Csts.shstMask := by
  rw [BitVec.and_or_distrib_right, show Csts.rdy &&& Csts.shstMask = 0#32 by decide,
    BitVec.or_zero]

theorem clear_rdy_shst (c : BitVec 32) :
    c &&& ~~~Csts.rdy &&& Csts.shstMask = c &&& Csts.shstMask := by
  rw [BitVec.and_assoc, show ~~~Csts.rdy &&& Csts.shstMask = Csts.shstMask by decide]

theorem or_shst_shst (h : r.ShstOk) :
    (r.csts ||| Csts.shstComplete) &&& Csts.shstMask = Csts.shstComplete := by
  rw [BitVec.and_or_distrib_right]
  obtain h | h := h <;> rw [h] <;> decide

theorem new_shstOk (n : Nat) : (new n).ShstOk := .inl BitVec.zero_and

theorem new_reports (n : Nat) : (new n).Reports where
  rdy := show ((0#32 &&& Csts.rdy) != 0) = Cc.enabled 0 by decide
  shst := show ((0#32 &&& Csts.shstMask) == Csts.shstComplete) = Cc.shutdown 0 by decide

theorem ShstOk.writeCc (h : r.ShstOk) (value : BitVec 32) : (r.writeCc value).2.ShstOk := by
  rw [writeCc_csts]
  unfold ShstOk
  dsimp only
  split
  · exact .inr (or_shst_shst h)
  · rw [or_rdy_shst]; exact h
  · rw [clear_rdy_shst]; exact h
  · exact h

/-- RDY after a write: a shutdown leaves it, and so does a write that does not change EN. -/
theorem writeCc_ready (r : RegisterState) (value : BitVec 32) :
    (r.writeCc value).2.ready =
      if Cc.shutdown value ∨ Cc.enabled r.cc = Cc.enabled value then r.ready
      else Cc.enabled value := by
  rw [writeCc_csts]
  unfold ready
  cases Cc.shutdown value <;> cases Cc.enabled r.cc <;> cases Cc.enabled value <;>
    simp [or_shst_rdy, or_rdy_rdy, clear_rdy_rdy]
  decide

/-- SHST after a write: nothing ever clears it. -/
theorem writeCc_shutdownComplete (h : r.ShstOk) (value : BitVec 32) :
    (r.writeCc value).2.shutdownComplete = (Cc.shutdown value || r.shutdownComplete) := by
  rw [writeCc_csts]
  unfold shutdownComplete
  cases Cc.shutdown value <;> cases Cc.enabled r.cc <;> cases Cc.enabled value <;>
    simp [or_shst_shst h, or_rdy_shst, clear_rdy_shst]

/-- CSTS stays in step with CC exactly when the write is in step with the value before. -/
theorem writeCc_reports (h : r.ShstOk) (hr : r.Reports) (value : BitVec 32) :
    (r.writeCc value).2.Reports ↔ InStep r.cc value := by
  have hready := r.writeCc_ready value
  have hshst := writeCc_shutdownComplete h value
  rw [hr.rdy] at hready
  rw [hr.shst] at hshst
  have hiff : (r.writeCc value).2.Reports ↔
      (r.writeCc value).2.ready = Cc.enabled value ∧
      (r.writeCc value).2.shutdownComplete = Cc.shutdown value := by
    have hcc := r.writeCc_cc value
    exact ⟨fun h => ⟨h.rdy.trans (congrArg _ hcc), h.shst.trans (congrArg _ hcc)⟩,
      fun h => ⟨h.1.trans (congrArg _ hcc.symm), h.2.trans (congrArg _ hcc.symm)⟩⟩
  rw [hiff, hready, hshst, InStep]
  cases Cc.shutdown value <;> cases Cc.shutdown r.cc <;> cases Cc.enabled r.cc <;>
    cases Cc.enabled value <;> decide

/-! ## Every sequence of writes -/

def writeAll (r : RegisterState) (vs : List (BitVec 32)) : RegisterState :=
  vs.foldl (fun r v => (r.writeCc v).2) r

def Orderly : BitVec 32 → List (BitVec 32) → Bool
  | _, [] => true
  | before, v :: vs => InStep before v && Orderly v vs

theorem writeAll_cc (r : RegisterState) (vs : List (BitVec 32)) :
    (r.writeAll vs).cc = vs.getLastD r.cc := by
  induction vs generalizing r with
  | nil => rfl
  | cons v vs ih =>
    have hstep := ih (r.writeCc v).2
    rw [writeCc_cc] at hstep
    rw [List.getLastD_cons, ← hstep]
    rfl

theorem writeAll_reports (h : r.ShstOk) (hr : r.Reports) (vs : List (BitVec 32)) :
    (∀ pre, pre <+: vs → (r.writeAll pre).Reports) ↔ Orderly r.cc vs := by
  induction vs generalizing r with
  | nil => simpa [Orderly, writeAll] using hr
  | cons v vs ih =>
    have hstep := writeCc_reports h hr v
    rw [Orderly, Bool.and_eq_true, ← hstep]
    constructor
    · intro hall
      have hone : (r.writeCc v).2.Reports := hall [v] (by simp)
      refine ⟨hone, ?_⟩
      have hrest := ih (h.writeCc v) hone
      rw [writeCc_cc] at hrest
      exact hrest.1 fun pre hpre => hall (v :: pre) (List.cons_prefix_cons.2 ⟨rfl, hpre⟩)
    · rintro ⟨hone, hord⟩ pre hpre
      have hrest := ih (h.writeCc v) hone
      rw [writeCc_cc] at hrest
      cases pre with
      | nil => exact hr
      | cons w pre =>
        obtain ⟨rfl, htail⟩ := List.cons_prefix_cons.1 hpre
        exact hrest.2 hord pre htail

end RegisterState

/-! ## Through the dispatcher -/

def setCc (value : BitVec 32) : Sqe :=
  { Sqe.zeroed with
    opcode := AdminOpcode.fabrics, cdw11 := Property.cc, cdw12 := value.toNat }

theorem setCc_fctype (value : BitVec 32) : byteAt (setCc value).asBytes 4 = Fctype.propertySet :=
  rfl

theorem setCc_property (value : BitVec 32) :
    PropertyCommand.refFromBytes (setCc value).asBytes =
      { cid := 0, offset := Property.cc, value := value.toNat } := by
  have hvalue : leAt (setCc value).asBytes 48 8 = le (toLe 4 value.toNat ++ toLe 4 0) := rfl
  have hcid : leAt (setCc value).asBytes 2 2 = le (toLe 2 0) := rfl
  have hoffset : leAt (setCc value).asBytes 44 4 = le (toLe 4 Property.cc) := rfl
  have hlt := value.isLt
  have hle : le (toLe 4 value.toNat ++ toLe 4 0) = value.toNat := by
    simp [toLe, le]
    omega
  unfold PropertyCommand.refFromBytes
  rw [hvalue, hle, hcid, hoffset, le_toLe, le_toLe]
  rfl

variable {B ε : Type} [Backend B]

theorem execute_setCc (ctx : ConnCtx (Volume B)) (tables : Admin.Tables B) (registry : Registry)
    (now : Nat) (slot : SlotView) (hrole : ctx.role = .admin a) (hconn : a.cntlid ≠ 0)
    (value : BitVec 32) :
    (execute ctx tables registry now slot (setCc value) : Checked ε _) =
      .ok (.done (.ofStatus 0 Status.success),
        { ctx with role := .admin { a with lastHeard := now, regs := (a.regs.writeCc value).2 } },
        registry) := by
  have hset : FabricsExec.propertySet { a with lastHeard := now } Property.cc value.toNat =
      (.ofStatus 0 Status.success,
        { a with lastHeard := now, regs := (a.regs.writeCc value).2 }) := by
    unfold FabricsExec.propertySet
    rw [if_pos rfl, if_neg hconn, BitVec.ofNat_toNat, BitVec.setWidth_eq]
  have hprop : FabricsExec.property (ctx.heard now) (setCc value) Fctype.propertySet =
      (.ofStatus 0 Status.success, { ctx with
        role := .admin { a with lastHeard := now, regs := (a.regs.writeCc value).2 } }) := by
    unfold FabricsExec.property ConnCtx.heard
    rw [setCc_property, hrole]
    dsimp only
    rw [if_neg (by decide), hset]
  unfold execute FabricsExec.execute
  rw [setCc_fctype]
  dsimp only
  rw [if_pos (show (setCc value).opcode = AdminOpcode.fabrics from rfl), if_neg (by decide),
    if_pos (.inr rfl), hprop]
  rfl

/-- A controller that is not ready refuses every other admin command. -/
theorem execute_busy (ctx : ConnCtx (Volume B)) (tables : Admin.Tables B) (registry : Registry)
    (now : Nat) (slot : SlotView) (hrole : ctx.role = .admin a) (hready : a.regs.ready = false)
    {sqe : Sqe} (hop : sqe.opcode ≠ AdminOpcode.fabrics) :
    (execute ctx tables registry now slot sqe : Checked ε _) =
      .ok (.done (.ofStatus 0 (Status.connectCtrlBusy ||| Status.dnr)), ctx.heard now,
        registry) := by
  unfold execute
  rw [if_neg hop]
  unfold ConnCtx.heard
  rw [hrole]
  dsimp only
  rw [hready]
  rfl

/-- The context after the CC writes `ws`, each with the moment it is dispatched. -/
def afterWrites (ctx : ConnCtx (Volume B)) (tables : Admin.Tables B) (registry : Registry)
    (slot : SlotView) (ws : List (Nat × BitVec 32)) : Checked ε (ConnCtx (Volume B)) :=
  ws.foldlM (fun ctx w => (·.2.1) <$> execute ctx tables registry w.1 slot (setCc w.2)) ctx

theorem afterWrites_eq (ctx : ConnCtx (Volume B)) (tables : Admin.Tables B) (registry : Registry)
    (slot : SlotView) (hrole : ctx.role = .admin a) (hconn : a.cntlid ≠ 0)
    (ws : List (Nat × BitVec 32)) :
    ∃ heard, (afterWrites ctx tables registry slot ws : Checked ε _) = .ok { ctx with
      role := .admin { a with lastHeard := heard, regs := a.regs.writeAll (ws.map (·.2)) } } := by
  induction ws generalizing ctx a with
  | nil => exact ⟨a.lastHeard, by rw [afterWrites, RegisterState.writeAll]; simp [← hrole]; rfl⟩
  | cons w ws ih =>
    obtain ⟨heard, hrest⟩ := ih { ctx with role := .admin { a with
      lastHeard := w.1, regs := (a.regs.writeCc w.2).2 } } rfl hconn
    refine ⟨heard, ?_⟩
    unfold afterWrites at hrest ⊢
    rw [List.foldlM_cons, execute_setCc ctx tables registry w.1 slot hrole hconn]
    exact hrest

/-- What a host may conclude from the last CC value it wrote. -/
structure FollowsCc (ctx : ConnCtx (Volume B)) (tables : Admin.Tables B) (registry : Registry)
    (slot : SlotView) (cc : BitVec 32) : Prop where
  admin : ∃ a, ctx.role = .admin a ∧ a.regs.cc = cc ∧ a.regs.ready = Cc.enabled cc ∧
    a.regs.shutdownComplete = Cc.shutdown cc
  refuses : Cc.enabled cc = false → ∀ now sqe, sqe.opcode ≠ AdminOpcode.fabrics →
    (execute ctx tables registry now slot sqe : Checked Empty _) =
      .ok (.done (.ofStatus 0 (Status.connectCtrlBusy ||| Status.dnr)), ctx.heard now, registry)

theorem followsCc_iff (ctx : ConnCtx (Volume B)) (tables : Admin.Tables B) (registry : Registry)
    (slot : SlotView) (hrole : ctx.role = .admin a) :
    FollowsCc ctx tables registry slot a.regs.cc ↔ a.regs.Reports := by
  constructor
  · intro h
    obtain ⟨a', hrole', -, hrdy, hshst⟩ := h.admin
    obtain rfl : a = a' := by simpa [hrole] using hrole'
    exact ⟨hrdy, hshst⟩
  · intro h
    refine ⟨⟨a, hrole, rfl, h.rdy, h.shst⟩, fun hen now sqe hop => ?_⟩
    exact execute_busy ctx tables registry now slot hrole (h.rdy.trans hen) hop

/-- After every write of a sequence RDY follows EN, SHST follows SHN and a disabled controller
refuses admin commands, exactly when the sequence is orderly. -/
theorem csts_follows_cc_iff_orderly (ctx : ConnCtx (Volume B)) (tables : Admin.Tables B)
    (registry : Registry) (slot : SlotView) (a : AdminState) (hrole : ctx.role = .admin a)
    (hconn : a.cntlid ≠ 0) (hreset : a.regs = .new maxQueueEntries)
    (ws : List (Nat × BitVec 32)) :
    (∀ pre, pre <+: ws → ∃ ctx', (afterWrites ctx tables registry slot pre : Checked Empty _) =
        .ok ctx' ∧ FollowsCc ctx' tables registry slot ((pre.map (·.2)).getLastD 0)) ↔
      RegisterState.Orderly 0 (ws.map (·.2)) := by
  have hcc : a.regs.cc = 0 := by rw [hreset]; rfl
  have hregs := RegisterState.writeAll_reports (r := a.regs) (hreset ▸ RegisterState.new_shstOk _)
    (hreset ▸ RegisterState.new_reports _) (ws.map (·.2))
  rw [hcc] at hregs
  rw [← hregs]
  -- the context after a prefix holds the registers after its values
  have hone : ∀ pre : List (Nat × BitVec 32),
      (∃ ctx', (afterWrites ctx tables registry slot pre : Checked Empty _) = .ok ctx' ∧
        FollowsCc ctx' tables registry slot ((pre.map (·.2)).getLastD 0)) ↔
      (a.regs.writeAll (pre.map (·.2))).Reports := by
    intro pre
    obtain ⟨heard, hafter⟩ := afterWrites_eq (ε := Empty) ctx tables registry slot hrole hconn pre
    have hlast := a.regs.writeAll_cc (pre.map (·.2))
    rw [hcc] at hlast
    rw [hafter, ← hlast]
    simp only [Except.ok.injEq, exists_eq_left']
    exact followsCc_iff (a := { a with
      lastHeard := heard, regs := a.regs.writeAll (pre.map (·.2)) }) _ tables registry slot rfl
  constructor
  · intro h vs hvs
    obtain ⟨pre, hpre, rfl⟩ := List.prefix_map_iff.1 hvs
    exact (hone pre).1 (h pre hpre)
  · intro h pre hpre
    exact (hone pre).2 (h _ (hpre.map _))

def connectedAdmin : ConnCtx (Volume Geometry) where
  qid := 0
  sqsize := 32
  tid := 1
  cpus := []
  port :=
    { traddr := [], trsvcid := [], trtype := .tcp, maxQid := 1, ioQueueSize := 128,
      subsystems := [], nodup := List.nodup_nil, fits := PortConfig.fits_nil }
  connectData := .readFromBytes []
  peer := []
  role := .admin { AdminState.new 0 with cntlid := 1 }

def noTables : Admin.Tables Geometry := fun _ => .new []
def anyRegistry : Registry := .ofSlice { min := 1, max := cntlidMax, valid := by decide }

theorem csts_follows_cc_enable_shutdown :
    RegisterState.Orderly 0 [1, 0x4001] ∧
      ∀ pre, pre <+: [(0, (1 : BitVec 32)), (5, 0x4001)] → ∃ ctx',
        (afterWrites connectedAdmin noTables anyRegistry noPayload pre : Checked Empty _) =
          .ok ctx' ∧
        FollowsCc ctx' noTables anyRegistry noPayload ((pre.map (·.2)).getLastD 0) :=
  ⟨by decide, (csts_follows_cc_iff_orderly connectedAdmin noTables anyRegistry noPayload _ rfl
    (by decide) rfl [(0, 1), (5, 0x4001)]).2 (by decide)⟩

/-- What CC says, what CSTS says and how a Keep Alive ends, after the CC writes `ws`. -/
def observe (ws : List (BitVec 32)) : Option (BitVec 32 × Bool × Bool × Option Nat) := do
  let ctx ← (afterWrites connectedAdmin noTables anyRegistry noPayload (ws.map ((0, ·))) :
    Checked Empty _).toOption
  let (reply, ctx, _) ← (execute ctx noTables anyRegistry 0 noPayload
    { Sqe.zeroed with opcode := AdminOpcode.keepAlive } : Checked Empty _).toOption
  match ctx.role, reply with
  | .admin a, .done out =>
    some (a.regs.cc, a.regs.ready, a.regs.shutdownComplete, some out.status)
  | _, _ => none

/-- A shutdown that clears EN leaves the controller ready and serving; an enable that comes with a
shutdown never makes it ready; and enabling after a shutdown leaves SHST at complete. -/
theorem shutdown_write_decouples_csts :
    observe [1, 0x4000] = some (0x4000, true, true, some Status.success) ∧
    observe [0x4001] =
      some (0x4001, false, true, some (Status.connectCtrlBusy ||| Status.dnr)) ∧
    observe [1, 0x4001, 0, 1] = some (1, true, true, some Status.success) := by
  decide +kernel

end Ioutgt.Nvme
