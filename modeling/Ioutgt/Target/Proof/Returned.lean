import Ioutgt.Nvme.Proof.Controller
import Ioutgt.Nvme.Proof.DiscoveryLog
import Ioutgt.Nvme.Proof.Io
import Ioutgt.Nvme.Proof.NsList
import Ioutgt.Rdma.Sgl
import Ioutgt.Tcp.Send

/-!
# How much the target returns

The handlers decide how many bytes go back to the host; the transports combine that number with the
command's descriptor only when the data leaves.

* `returned_eq`: on either transport all of a slot's data goes out.
* `serve_dataLen`: an IO command returns no more than its descriptor's low 24 bits.
* `admin_dataLen`: what an admin command returns, `owed`, which no handler compares with the
  descriptor.
* `returned_within_sgl_iff`: the target stays within the descriptor exactly when `owed` does.
-/

namespace Ioutgt.Target

open Lib Ioutgt.Core Ioutgt.Nvme

/-! ## The transports -/

/-- A transport, with what its connection negotiated. -/
inductive Transport where
  | tcp (sqhdDisabled hdrDigest dataDigest : Bool)
  | rdma
  deriving DecidableEq, Repr

/-- The length a command's descriptor declares, as the transport reads it. -/
def declared : Transport → Sqe → Nat
  | .tcp .., sqe => sqe.dptr.length
  | .rdma, sqe => (Rdma.parseKeyedSgl sqe).len

def payloadLen : Tcp.Chunk → Nat
  | .arena _ => 0
  | .raw bytes => bytes.length

/-- Bytes that go to the host for a completion: C2HData payload, or what the WRITEs carry. -/
def returned (t : Transport) (cmd : Sqe) (segs : List (List UInt8)) (c : Tcp.Completion) : Nat :=
  match t with
  | .tcp sqhdDisabled hdrDigest dataDigest =>
    ((Tcp.stageSendWork sqhdDisabled hdrDigest dataDigest segs (.response c)).map payloadLen).sum
  | .rdma => ((Rdma.responseWrites cmd segs c.dataLen).map fun w => w.data.length).sum

theorem payloadLen_raw (pieces : List (List UInt8)) :
    ((pieces.map Tcp.Chunk.raw).map payloadLen).sum = pieces.flatten.length := by
  rw [List.map_map, List.length_flatten]
  rfl

theorem postSgeRuns_length : ∀ (remote : Nat) (sges : List (List UInt8)),
    ((Rdma.postSgeRuns remote sges).map fun w => w.data.length).sum = sges.flatten.length
  | _, [] => rfl
  | remote, sge :: sges => by
    rw [Rdma.postSgeRuns, List.map_cons, List.sum_cons, postSgeRuns_length, List.flatten_cons,
      List.length_append]

/-- Neither transport looks at the descriptor's length: all of the data goes out. -/
theorem returned_eq (t : Transport) (cmd : Sqe) {segs : List (List UInt8)} {c : Tcp.Completion}
    (h : c.dataLen ≤ segs.flatten.length) : returned t cmd segs c = c.dataLen := by
  have htake : (takeSegs segs c.dataLen).flatten.length = c.dataLen := by
    rw [takeSegs_flatten, List.length_take, Nat.min_eq_left h]
  cases t with
  | tcp sqhdDisabled hdrDigest dataDigest =>
    have hresp : ∀ e : Bool, ((if e = true then []
        else [Tcp.Chunk.arena (encodeCapsuleResp c.cqe hdrDigest)]).map payloadLen).sum = 0 := by
      intro e
      cases e <;> rfl
    unfold returned Tcp.stageSendWork
    dsimp only
    rw [List.map_append, List.sum_append, hresp, Nat.add_zero]
    split
    · have hdig : ((if dataDigest = true then
          [Tcp.Chunk.arena (toLe 4 (crc32c (segs.flatten.take c.dataLen)).toNat)]
          else []).map payloadLen).sum = 0 := by
        cases dataDigest <;> rfl
      rw [List.map_append, List.map_append, List.sum_append, List.sum_append, hdig,
        payloadLen_raw, Tcp.c2hPayload, htake]
      simp [payloadLen]
    · rename_i hz
      simp only [List.map_nil, List.sum_nil]
      omega
  | rdma =>
    unfold returned Rdma.responseWrites
    dsimp only
    split
    · rw [postSgeRuns_length, Rdma.fillSges, htake]
    · rename_i hz
      simp only [List.map_nil, List.sum_nil]
      omega

theorem parseKeyedSgl_len (sqe : Sqe) :
    (Rdma.parseKeyedSgl sqe).len = sqe.dptr.length &&& 0x00FFFFFF := by
  have hb : ∀ i, i < 4 → byteAt (slice sqe.asBytes 24 16) (8 + i) =
      byteAt (toLe 4 sqe.dptr.length) i := by
    intro i hi
    rw [byteAt_eq_leAt, byteAt_eq_leAt, leAt, slice_slice (by omega), leAt]
    unfold Sqe.asBytes SglDescriptor.asBytes
    simp only [List.append_assoc]
    iterate 8 rw [slice_append (by simp; omega)]
    rw [slice_append_left (by simp; omega)]
    simp only [toLe_length]
    congr 2
    omega
  have h0 := hb 0 (by decide)
  have h1 := hb 1 (by decide)
  have h2 := hb 2 (by decide)
  generalize sqe.dptr.length = n at *
  have e0 : byteAt (toLe 4 n) 0 = n % 256 := by simp [byteAt, toLe]
  have e1 : byteAt (toLe 4 n) 1 = n / 256 % 256 := by simp [byteAt, toLe]
  have e2 : byteAt (toLe 4 n) 2 = n / 256 / 256 % 256 := by simp [byteAt, toLe]
  show byteAt (slice sqe.asBytes 24 16) (8 + 0) ||| (byteAt (slice sqe.asBytes 24 16) (8 + 1) <<< 8)
    ||| (byteAt (slice sqe.asBytes 24 16) (8 + 2) <<< 16) = n &&& 0x00FFFFFF
  rw [h0, h1, h2, e0, e1, e2]
  have hlow : n % 256 ||| (n / 256 % 256) <<< 8 = n % 65536 := by
    rw [Nat.or_comm, ← Nat.shiftLeft_add_eq_or_of_lt (by omega), Nat.shiftLeft_eq]
    omega
  rw [hlow, Nat.or_comm, ← Nat.shiftLeft_add_eq_or_of_lt (by omega), Nat.shiftLeft_eq,
    show (0x00FFFFFF : Nat) = 2 ^ 24 - 1 by decide, Nat.and_two_pow_sub_one_eq_mod]
  omega

theorem low24_le_declared (t : Transport) (sqe : Sqe) :
    sqe.dptr.length &&& 0x00FFFFFF ≤ declared t sqe := by
  cases t with
  | tcp => exact Nat.and_le_left
  | rdma => exact Nat.le_of_eq (parseKeyedSgl_len sqe).symm

/-! ## IO commands -/

section Handlers

variable {B : Type} [Core.Backend B]

def anyCall (_ : IoOp B) : Prop := True

theorem read_dataLen (b : B) (sqe : Sqe) : (Io.read b sqe).wp anyCall
    fun out => out.dataLen ≤ sqe.dptr.length &&& 0x00FFFFFF := by
  by_cases h : RwOk b sqe
  · unfold Io.read
    rw [checkedLen_ok h]
    refine ⟨trivial, fun segs => ⟨trivial, ?_⟩⟩
    rintro (e | bytes)
    · exact Nat.zero_le _
    · exact Nat.le_of_eq h.sgl.symm
  · obtain ⟨code, hc, -⟩ := checkedLen_refused h
    unfold Io.read
    rw [hc]
    exact Nat.zero_le _

/-- Only a read returns data, and as much as its descriptor says. -/
theorem serve_dataLen (b : B) (slot : SlotView) (sqe : Sqe) : (Io.serve b slot sqe).wp anyCall
    fun out => out.dataLen ≤ sqe.dptr.length &&& 0x00FFFFFF := by
  have hmap : ∀ r, (Io.mapBackend r).dataLen ≤ sqe.dptr.length &&& 0x00FFFFFF := by
    rintro (e | u) <;> exact Nat.zero_le _
  have hn := RwCommand.nlb_le sqe
  unfold Io.serve
  split
  · exact ⟨trivial, hmap⟩
  split
  · exact read_dataLen b sqe
  split
  · unfold Io.write
    by_cases hok : RwOk b sqe
    · rw [checkedLen_ok hok]
      show (if slot.dataLen ≠ xferLen b sqe then _ else _ : IoProg B Outcome).wp _ _
      split
      · exact Nat.zero_le _
      refine ⟨trivial, ?_⟩
      rintro (e | u)
      · exact Nat.zero_le _
      · show (if (RwCommand.parse sqe).fua = true then _ else _ : IoProg B Outcome).wp _ _
        split
        · exact ⟨trivial, hmap⟩
        · exact Nat.zero_le _
    · obtain ⟨code, hc, -⟩ := checkedLen_refused hok
      rw [hc]
      exact Nat.zero_le _
  split
  · dsimp only
    refine Prog.wp_check (Checked.add_ok (by omega)) ?_
    exact ⟨trivial, hmap⟩
  split
  · unfold Io.dsm
    dsimp only
    split
    · exact Nat.zero_le _
    split
    · exact Nat.zero_le _
    · exact ⟨trivial, hmap⟩
  · exact Nat.zero_le _

theorem io_dataLen (io : IoState (Volume B)) (tables : Admin.Tables B) (slot : SlotView)
    (sqe : Sqe) : (Io.execute io tables slot sqe).1.wp anyCall
      fun out => out.dataLen ≤ sqe.dptr.length &&& 0x00FFFFFF := by
  unfold Io.execute
  split
  · exact Nat.zero_le _
  · dsimp only
    split
    · exact Nat.zero_le _
    · exact serve_dataLen _ slot sqe

/-! ## Admin commands -/

/-- An Identify that is answered with data: its structure exists and what it is about does. -/
def identifyServed (tables : Admin.Tables B) (admin : AdminState) (sqe : Sqe) : Bool :=
  let which := sqe.cdw10 &&& 0xFF
  if which = Cns.controller then true
  else if which = Cns.namespace then
    admin.subsys.any fun s => ((tables s.nqn).namespaces.get sqe.nsid).isSome ||
      decide (sqe.nsid ≤ (tables s.nqn).maxNsid)
  else if which = Cns.activeNsList then true
  else if which = Cns.nsDescList then
    (admin.subsys.bind fun s => (tables s.nqn).namespaces.get sqe.nsid).isSome
  else false

/-- Bytes of log a Get Log Page gets: what it asks for, of what there is. -/
def logOwed (port : PortConfig) (admin : AdminState) (sqe : Sqe) : Nat :=
  let lid := sqe.cdw10 &&& 0xFF
  if lid = LogPage.discovery ∧ admin.discovery then
    min (min (Admin.logLen sqe) (1024 * (port.subsystems.length + 1) - Admin.logOffset sqe))
      adminDataMax
  else if lid = LogPage.changedNs ∨ lid = LogPage.error ∨ lid = LogPage.smart ∨
      lid = LogPage.fwSlot then min (Admin.logLen sqe) 4096
  else 0

/-- What a command of an admin queue makes the target return. -/
def adminOwed (port : PortConfig) (tables : Admin.Tables B) (admin : AdminState) (sqe : Sqe) :
    Nat :=
  if sqe.opcode = AdminOpcode.identify then
    if identifyServed tables admin sqe then 4096 else 0
  else if sqe.opcode = AdminOpcode.getLogPage then logOwed port admin sqe
  else 0

theorem fillSlot_dataLen (data : List UInt8) :
    (Admin.fillSlot data).dataLen = min data.length adminDataMax := rfl

theorem fillSlot_page {data : List UInt8} (h : data.length = 4096) :
    (Admin.fillSlot data).dataLen = 4096 := by
  rw [fillSlot_dataLen, h]
  decide

theorem identify_dataLen (port : PortConfig) (tables : Admin.Tables B) (admin : AdminState)
    (sqe : Sqe) : (Admin.identify port tables admin sqe).dataLen =
      if identifyServed tables admin sqe then 4096 else 0 := by
  unfold Admin.identify identifyServed
  dsimp only
  split
  · exact fillSlot_page (IdentifyController.asBytes_length _)
  split
  · cases admin.subsys with
    | none => rfl
    | some s =>
      dsimp only
      cases hg : (tables s.nqn).namespaces.get sqe.nsid with
      | some ns =>
        simp only [Option.any_some, hg, Option.isSome_some, Bool.true_or, if_true]
        exact fillSlot_page (IdentifyNamespace.asBytes_length _)
      | none =>
        simp only [Option.any_some, hg, Option.isSome_none, Bool.false_or, decide_eq_true_eq]
        split
        · exact fillSlot_page (IdentifyNamespace.asBytes_length _)
        · rfl
  split
  · cases admin.subsys with
    | none => exact fillSlot_page (zeros_length _)
    | some s => exact fillSlot_page (activeNsList_length _ _)
  split
  · cases admin.subsys.bind fun s => (tables s.nqn).namespaces.get sqe.nsid with
    | none => rfl
    | some ns => exact fillSlot_page (fit_length ..)
  · rfl

theorem getLogPage_dataLen (port : PortConfig) (admin : AdminState) (sqe : Sqe) :
    (Admin.getLogPage port admin sqe).1.dataLen = logOwed port admin sqe := by
  unfold Admin.getLogPage logOwed
  dsimp only
  by_cases hd : sqe.cdw10 &&& 0xFF = LogPage.discovery ∧ admin.discovery
  · rw [if_pos hd, if_pos hd, fillSlot_dataLen, slice_window (buildDiscoveryLog_length_lt port),
      Lib.slice_length, buildDiscoveryLog_length]
  rw [if_neg hd, if_neg hd]
  by_cases hc : sqe.cdw10 &&& 0xFF = LogPage.changedNs
  · rw [if_pos hc, if_pos (Or.inl hc)]
  rw [if_neg hc]
  by_cases hz : sqe.cdw10 &&& 0xFF = LogPage.error ∨ sqe.cdw10 &&& 0xFF = LogPage.smart ∨
      sqe.cdw10 &&& 0xFF = LogPage.fwSlot
  · rw [if_pos hz, if_pos (Or.inr hz)]
  · rw [if_neg hz, if_neg (not_or.2 ⟨hc, hz⟩)]
    rfl

theorem getFeatures_dataLen (port : PortConfig) (admin : AdminState) (sqe : Sqe) :
    (Admin.getFeatures port admin sqe).dataLen = 0 := by
  unfold Admin.getFeatures
  dsimp only
  repeat' split
  all_goals rfl

theorem setFeatures_dataLen (port : PortConfig) (admin : AdminState) (sqe : Sqe) :
    (Admin.setFeatures port admin sqe).1.dataLen = 0 := by
  unfold Admin.setFeatures
  dsimp only
  repeat' split
  all_goals rfl

theorem asyncEvent_dataLen (admin : AdminState) :
    (Admin.asyncEvent admin).1.elim 0 (·.dataLen) = 0 := by
  unfold Admin.asyncEvent
  repeat' split
  all_goals rfl

/-- What an admin command returns; one that waits, an Async Event Request, is owed nothing. -/
theorem admin_dataLen (port : PortConfig) (tables : Admin.Tables B) (admin : AdminState) (sqe : Sqe) :
    (Admin.execute port tables admin sqe).1.elim 0 (·.dataLen) = adminOwed port tables admin sqe := by
  unfold Admin.execute adminOwed
  by_cases hid : sqe.opcode = AdminOpcode.identify
  · rw [if_pos hid, if_pos hid]
    exact identify_dataLen port tables admin sqe
  rw [if_neg hid, if_neg hid]
  by_cases hlog : sqe.opcode = AdminOpcode.getLogPage
  · rw [if_neg (by rw [hlog]; decide), if_neg (by rw [hlog]; decide), if_pos hlog, if_pos hlog]
    exact getLogPage_dataLen port admin sqe
  rw [if_neg hlog, if_neg hlog]
  split
  · exact getFeatures_dataLen port admin sqe
  split
  · exact setFeatures_dataLen port admin sqe
  split
  · rfl
  split
  · exact asyncEvent_dataLen admin
  · rfl

end Handlers

/-! ## Fabrics commands -/

section Fabrics

variable {B : Type}

theorem createController_dataLen {ε : Type} {ctx : ConnCtx (Volume B)} {admin admin' : AdminState}
    {cmd : ConnectCommand} {r r' : Registry} {out : Outcome}
    (h : (FabricsExec.createController ctx admin cmd r : Checked ε _) = .ok (out, admin', r')) :
    out.dataLen = 0 := by
  unfold FabricsExec.createController at h
  dsimp only at h
  split at h
  · cases h
    rfl
  · obtain ⟨⟨got, r1⟩, -, h⟩ := Checked.bind_eq_ok.1 h
    cases got <;> cases h <;> rfl

theorem fabrics_dataLen {ε : Type} {ctx ctx' : ConnCtx (Volume B)} {sqe : Sqe} {r r' : Registry}
    {out : Outcome} (h : (FabricsExec.execute ctx sqe r : Checked ε _) = .ok (out, ctx', r')) :
    out.dataLen = 0 := by
  unfold FabricsExec.execute at h
  dsimp only at h
  split at h
  · unfold FabricsExec.connect at h
    dsimp only at h
    split at h
    · cases h
      rfl
    · cases hrole : ctx.role with
      | admin admin =>
        simp only [hrole] at h
        obtain ⟨⟨o, a, r1⟩, hc, h⟩ := Checked.bind_eq_ok.1 h
        cases h
        unfold FabricsExec.connectAdmin at hc
        dsimp only at hc
        repeat' split at hc
        all_goals first | exact createController_dataLen hc | (cases hc; rfl)
      | io io =>
        simp only [hrole] at h
        unfold FabricsExec.connectIo at h
        dsimp only at h
        repeat' split at h
        all_goals
          cases h
          rfl
  split at h
  · unfold FabricsExec.property FabricsExec.propertyGet FabricsExec.propertySet at h
    dsimp only at h
    repeat' split at h
    all_goals
      cases h
      rfl
  · cases h
    rfl

end Fabrics

/-! ## Every command -/

variable {B : Type} [Core.Backend B]

/-- How a command that was given a reply ends. -/
inductive Finishes : Reply B → Outcome → Prop where
  | done (out : Outcome) : Finishes (.done out) out
  | running {handler : IoProg B Outcome} {ops : List (IoOp B)} {out : Outcome} :
      handler.Runs ops (some (.ok out)) → Finishes (.running handler) out

/-- What a command makes the target return whatever its descriptor says. -/
def owed (ctx : ConnCtx (Volume B)) (tables : Admin.Tables B) (sqe : Sqe) : Nat :=
  if sqe.opcode = AdminOpcode.fabrics then 0
  else
    match ctx.role with
    | .admin a => if a.regs.ready then adminOwed ctx.port tables a sqe else 0
    | .io _ => 0

/-- A command that ends either returns exactly `owed`, or nothing is owed and its descriptor covers
what it returns. -/
theorem execute_dataLen {ε : Type} {ctx ctx' : ConnCtx (Volume B)} {tables : Admin.Tables B}
    {registry registry' : Registry} {now : Nat} {slot : SlotView} {sqe : Sqe} {reply : Reply B}
    (h : (execute ctx tables registry now slot sqe : Checked ε _) = .ok (reply, ctx', registry')) :
    (∃ out, reply = .done out ∧ out.dataLen = owed ctx tables sqe) ∨
      owed ctx tables sqe = 0 ∧
        ∀ out, Finishes reply out → out.dataLen ≤ sqe.dptr.length &&& 0x00FFFFFF := by
  unfold execute at h
  dsimp only at h
  unfold owed
  by_cases hf : sqe.opcode = AdminOpcode.fabrics
  · rw [if_pos hf] at h ⊢
    obtain ⟨⟨out, c, r⟩, hx, h⟩ := Checked.bind_eq_ok.1 h
    cases h
    exact .inl ⟨out, rfl, fabrics_dataLen hx⟩
  rw [if_neg hf] at h ⊢
  cases hrole : ctx.role with
  | admin a =>
    -- being heard from changes only when the host was last heard, which nothing owed depends on
    have hheard : adminOwed ctx.port tables a sqe =
        adminOwed ctx.port tables { a with lastHeard := now } sqe := rfl
    simp only [ConnCtx.heard, hrole] at h
    dsimp only
    cases hready : a.regs.ready with
    | false =>
      rw [hready] at h
      cases h
      exact .inl ⟨_, rfl, rfl⟩
    | true =>
      rw [hready] at h
      have howed := (admin_dataLen ctx.port tables { a with lastHeard := now } sqe).trans hheard.symm
      cases hx : Admin.execute ctx.port tables { a with lastHeard := now } sqe with
      | mk got a' =>
        simp only [hx, Bool.not_true, Bool.false_eq_true, if_false] at h
        rw [hx] at howed
        cases got with
        | some out =>
          cases h
          exact .inl ⟨out, rfl, howed⟩
        | none =>
          cases h
          exact .inr ⟨howed.symm, fun out hfin => by cases hfin⟩
  | io io =>
    simp only [ConnCtx.heard, hrole] at h
    cases h
    refine .inr ⟨rfl, fun out hfin => ?_⟩
    cases hfin with
    | running hruns =>
      obtain ⟨-, hout⟩ := Prog.wp_sound (io_dataLen io tables slot sqe) hruns
      obtain ⟨o, ho, hle⟩ := hout _ rfl
      cases ho
      exact hle

/-- **Returned data and the descriptor.** On either transport, for every command in every state:
however it ends, the target stays within the length its descriptor declares exactly when what the
command is owed does. IO and fabrics commands are owed nothing, so they always do; an Identify that
is served is owed a page, and a Get Log Page what it asks for of what there is. -/
theorem returned_within_sgl_iff {ε : Type} (t : Transport) (ctx ctx' : ConnCtx (Volume B))
    (tables : Admin.Tables B) (registry registry' : Registry) (now : Nat) (slot : SlotView)
    (sqe : Sqe) (reply : Reply B)
    (h : (execute ctx tables registry now slot sqe : Checked ε _) = .ok (reply, ctx', registry')) :
    (∀ out c segs, Finishes reply out → c.dataLen = out.dataLen →
        c.dataLen ≤ segs.flatten.length → returned t sqe segs c ≤ declared t sqe) ↔
      owed ctx tables sqe ≤ declared t sqe := by
  constructor
  · intro hall
    rcases execute_dataLen h with ⟨out, hr, ho⟩ | ⟨hz, -⟩
    · -- the outcome in a buffer of its own length
      have hret := hall out { tag := 0, cqe := Cqe.readFromBytes [], dataLen := out.dataLen }
        [List.replicate out.dataLen 0] (hr ▸ .done out) rfl (by simp)
      rw [returned_eq t sqe (by simp)] at hret
      rw [← ho]
      exact hret
    · rw [hz]
      exact Nat.zero_le _
  · intro hle out c segs hfin hc hcov
    rw [returned_eq t sqe hcov, hc]
    rcases execute_dataLen h with ⟨out', hr, ho⟩ | ⟨-, hbound⟩
    · rw [hr] at hfin
      cases hfin
      rw [ho]
      exact hle
    · exact Nat.le_trans (hbound out hfin) (low24_le_declared t sqe)

def enabledAdmin : ConnCtx (Volume Geometry) :=
  { connectedAdmin with
    role := .admin { AdminState.new 0 with
      cntlid := 1, regs := ((RegisterState.new 128).writeCc 1).2 } }

def identifyController (length : Nat) : Sqe :=
  { Sqe.zeroed with
    opcode := AdminOpcode.identify
    cdw10 := Cns.controller
    dptr := { Sqe.zeroed.dptr with length := length } }

theorem returned_within_sgl_iff_page : ∃ reply ctx' registry',
    (execute enabledAdmin noTables anyRegistry 0 noPayload (identifyController 4096) :
      Checked Empty _) = .ok (reply, ctx', registry') ∧
    ∀ out c segs, Finishes reply out → c.dataLen = out.dataLen →
      c.dataLen ≤ segs.flatten.length →
      returned .rdma (identifyController 4096) segs c ≤ declared .rdma (identifyController 4096) :=
  ⟨_, _, _, rfl, (returned_within_sgl_iff (ε := Empty) .rdma enabledAdmin _ noTables anyRegistry _
    0 noPayload (identifyController 4096) _ rfl).2 (by rw [declared, parseKeyedSgl_len]; decide)⟩

/-- A host that offers 512 bytes for Identify is sent 4096, on either transport. -/
theorem identify_overruns_descriptor : ∃ out ctx' registry',
    (execute enabledAdmin noTables anyRegistry 0 noPayload (identifyController 512) :
      Checked Empty _) = .ok (.done out, ctx', registry') ∧ out.status = Status.success ∧
    ∀ t c segs, c.dataLen = out.dataLen → c.dataLen ≤ segs.flatten.length →
      returned t (identifyController 512) segs c = 4096 ∧
        declared t (identifyController 512) = 512 := by
  refine ⟨_, _, _, rfl, rfl, fun t c segs hc hcov => ⟨?_, ?_⟩⟩
  · rw [returned_eq t _ hcov, hc]
    exact fillSlot_page (IdentifyController.asBytes_length _)
  · cases t with
    | tcp => rfl
    | rdma =>
      rw [declared, parseKeyedSgl_len]
      decide

end Ioutgt.Target
