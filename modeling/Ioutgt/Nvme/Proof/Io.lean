import Ioutgt.Backend.Proof.Store
import Ioutgt.Nvme.Io

/-!
# IO commands reach a backend only with a valid transfer

* `checkedLen_ok`, `checkedLen_refused`: the length check decides exactly `RwOk`; no step of it
  wraps.
* `serve_wp`, `execute_wp`: every call of a handler meets `CallOk`, and no handler panics.
* `read_refused`, `write_refused`: a transfer that is not valid is answered without a call.
* `io_command_calls_valid`: the same for every run of every command.
-/

namespace Ioutgt.Nvme

open Lib Ioutgt.Core Ioutgt.Backend

/-! ## Valid transfers -/

section Length

variable {B : Type} [Core.Backend B] {b : B} {sqe : Sqe}

/-- Bytes a read or write command asks for: its block count in blocks of the backend. -/
def xferLen (b : B) (sqe : Sqe) : Nat :=
  ((RwCommand.parse sqe).nlb + 1) * 2 ^ Core.Backend.blockShift b

/-- The transfer is valid: its blocks lie inside the namespace, its length is within the limit and
is what the low 24 bits of the host's descriptor say. -/
structure RwOk (b : B) (sqe : Sqe) : Prop where
  inside : (RwCommand.parse sqe).slba + ((RwCommand.parse sqe).nlb + 1) ≤ Core.Backend.nrBlocks b
  mdts : xferLen b sqe ≤ mdtsBytes
  sgl : sqe.dptr.length &&& 0x00FFFFFF = xferLen b sqe

theorem RwCommand.nlb_le (sqe : Sqe) : (RwCommand.parse sqe).nlb ≤ 0xFFFF := Nat.and_le_right

/-- A 16-bit count of the largest blocks is far from 64 bits. -/
theorem xferLen_lt (b : B) (sqe : Sqe) : xferLen b sqe < 2 ^ 64 := by
  have hn := RwCommand.nlb_le sqe
  have hs : 2 ^ Core.Backend.blockShift b ≤ 2 ^ 31 :=
    Nat.pow_le_pow_right (by decide) (Core.Backend.blockShift_le b)
  calc xferLen b sqe ≤ (0xFFFF + 1) * 2 ^ 31 := Nat.mul_le_mul (by omega) hs
    _ < 2 ^ 64 := by decide

theorem nrBlocks_lt (b : B) : Core.Backend.nrBlocks b < 2 ^ 64 :=
  Nat.lt_of_le_of_lt (Nat.le_mul_of_pos_right _ (Nat.two_pow_pos _)) (Core.Backend.bytes_lt b)

theorem checkedLen_eq (b : B) (sqe : Sqe) : Io.checkedLen b sqe =
    if xferLen b sqe > mdtsBytes then .raise (Status.invalidField ||| Status.dnr)
    else if sqe.dptr.length &&& 0x00FFFFFF ≠ xferLen b sqe then
      .raise (Status.dataSglLenInvalid ||| Status.dnr)
    else
      match checkRange (Core.Backend.nrBlocks b) (RwCommand.parse sqe).slba
        ((RwCommand.parse sqe).nlb + 1) with
      | .error e => .raise (Io.nvmeStatus e)
      | .ok () => .ok (RwCommand.parse sqe, xferLen b sqe % 2 ^ 32) := by
  have hn := RwCommand.nlb_le sqe
  have hs := Core.Backend.blockShift_le b
  have hadd : (Checked.add 64 (RwCommand.parse sqe).nlb 1 : Checked Nat Nat)
      = .ok ((RwCommand.parse sqe).nlb + 1) := Checked.add_ok (by omega)
  have hshl : (Checked.shl 64 ((RwCommand.parse sqe).nlb + 1) (Core.Backend.blockShift b) :
      Checked Nat Nat) = .ok (xferLen b sqe) := Checked.shl_ok (by omega) (xferLen_lt b sqe)
  unfold Io.checkedLen
  dsimp only
  rw [hadd, Checked.bind_ok, hshl, Checked.bind_ok]
  rfl

theorem checkedLen_ok (h : RwOk b sqe) :
    Io.checkedLen b sqe = .ok (RwCommand.parse sqe, xferLen b sqe) := by
  have hr : checkRange (Core.Backend.nrBlocks b) (RwCommand.parse sqe).slba
      ((RwCommand.parse sqe).nlb + 1) = .ok () :=
    if_pos ⟨Nat.lt_of_le_of_lt h.inside (nrBlocks_lt b), h.inside⟩
  have hlt : xferLen b sqe < 2 ^ 32 := Nat.lt_of_le_of_lt h.mdts (by decide)
  rw [checkedLen_eq, if_neg (Nat.not_lt.2 h.mdts), if_neg (not_not.2 h.sgl), hr]
  simp only [Nat.mod_eq_of_lt hlt]

theorem nvmeStatus_ne (e : BackendError) : Io.nvmeStatus e ≠ Status.success := by
  cases e <;> simp only [Io.nvmeStatus] <;> decide

theorem checkedLen_refused (h : ¬RwOk b sqe) :
    ∃ code, Io.checkedLen b sqe = .raise code ∧ code ≠ Status.success := by
  rw [checkedLen_eq]
  by_cases hm : xferLen b sqe > mdtsBytes
  · exact ⟨_, if_pos hm, by decide⟩
  rw [if_neg hm]
  by_cases hg : sqe.dptr.length &&& 0x00FFFFFF ≠ xferLen b sqe
  · exact ⟨_, if_pos hg, by decide⟩
  rw [if_neg hg]
  cases hr : checkRange (Core.Backend.nrBlocks b) (RwCommand.parse sqe).slba
      ((RwCommand.parse sqe).nlb + 1) with
  | error e => exact ⟨_, rfl, nvmeStatus_ne e⟩
  | ok u => exact absurd ⟨checkRange_eq_ok hr, Nat.not_lt.1 hm, not_not.1 hg⟩ h

theorem read_refused (h : ¬RwOk b sqe) :
    ∃ out, Io.read b sqe = .ret out ∧ out.status ≠ Status.success := by
  obtain ⟨code, hc, hne⟩ := checkedLen_refused h
  refine ⟨.ofStatus 0 code, ?_, hne⟩
  unfold Io.read
  rw [hc]
  rfl

theorem write_refused {slot : SlotView} (h : ¬(RwOk b sqe ∧ slot.dataLen = xferLen b sqe)) :
    ∃ out, Io.write b slot sqe = .ret out ∧ out.status ≠ Status.success := by
  by_cases hok : RwOk b sqe
  · refine ⟨.ofStatus 0 (Status.dataXferError ||| Status.dnr), ?_, by decide⟩
    unfold Io.write
    rw [checkedLen_ok hok]
    exact if_pos fun hl => h ⟨hok, hl⟩
  · obtain ⟨code, hc, hne⟩ := checkedLen_refused hok
    refine ⟨.ofStatus 0 code, ?_, hne⟩
    unfold Io.write
    rw [hc]
    rfl

end Length

/-! ## What is called -/

def CallOk (slot : SlotView) (sqe : Sqe) : IoOp AnyBackend → Prop
  | .lease _ => True
  | .readSegs b slba segs total =>
    RwOk b sqe ∧ slba = (RwCommand.parse sqe).slba ∧ total = xferLen b sqe ∧
      total ≤ segs.flatten.length
  | .writeSegs b slba segs total =>
    RwOk b sqe ∧ slba = (RwCommand.parse sqe).slba ∧ total = xferLen b sqe ∧
      total ≤ segs.flatten.length ∧ total = slot.dataLen
  | .flush _ => True
  -- the store operations of these two, down to the system calls
  | .discard b ranges => (b.discard ranges).wp (StoreOp.Inside b.geometry) anyResult
  | .writeZeroes b range => (b.writeZeroes range).wp (StoreOp.Inside b.geometry) anyResult

variable {b : AnyBackend} {slot : SlotView} {sqe : Sqe}

def anyOutcome (_ : Outcome) : Prop := True

theorem read_wp : (Io.read b sqe).wp (CallOk slot sqe) anyOutcome := by
  by_cases h : RwOk b sqe
  · unfold Io.read
    rw [checkedLen_ok h]
    refine ⟨trivial, fun segs => ⟨⟨h, rfl, rfl, segs.2.2⟩, ?_⟩⟩
    rintro (e | bytes) <;> trivial
  · obtain ⟨out, ho, -⟩ := read_refused h
    rw [ho]
    trivial

theorem write_wp : (Io.write b slot sqe).wp (CallOk slot sqe) anyOutcome := by
  by_cases h : RwOk b sqe ∧ slot.dataLen = xferLen b sqe
  · obtain ⟨hok, hlen⟩ := h
    unfold Io.write
    rw [checkedLen_ok hok]
    show (if slot.dataLen ≠ xferLen b sqe then _ else _ : IoProg AnyBackend Outcome).wp _ _
    rw [if_neg (not_not.2 hlen)]
    refine ⟨⟨hok, rfl, rfl, hlen ▸ slot.covered, hlen.symm⟩, ?_⟩
    rintro (e | u)
    · trivial
    · -- a forced-unit-access write flushes once it is done
      show (if (RwCommand.parse sqe).fua = true then _ else _ : IoProg AnyBackend Outcome).wp _ _
      split
      · exact ⟨trivial, fun _ => trivial⟩
      · trivial
  · obtain ⟨out, ho, -⟩ := write_refused h
    rw [ho]
    trivial

theorem dsm_wp : (Io.dsm b slot sqe).wp (CallOk slot sqe) anyOutcome := by
  unfold Io.dsm
  dsimp only
  split
  · trivial
  · split
    · trivial
    · exact ⟨b.discard_inside _, fun _ => trivial⟩

theorem serve_wp : (Io.serve b slot sqe).wp (CallOk slot sqe) anyOutcome := by
  have hn := RwCommand.nlb_le sqe
  unfold Io.serve
  split
  · exact ⟨trivial, fun _ => trivial⟩
  split
  · exact read_wp
  split
  · exact write_wp
  split
  · dsimp only
    refine Prog.wp_check (Checked.add_ok (by omega)) ?_
    exact ⟨b.writeZeroes_inside _, fun _ => trivial⟩
  split
  · exact dsm_wp
  · trivial

/-! ## Every command -/

theorem execute_cases (io : IoState (Volume AnyBackend)) (tables : Admin.Tables AnyBackend)
    (slot : SlotView) (sqe : Sqe) :
    (∃ out, (Io.execute io tables slot sqe).1 = .ret out ∧ out.status ≠ Status.success) ∨
      ∃ b, (Io.execute io tables slot sqe).1 = Io.serve b slot sqe := by
  unfold Io.execute
  split
  · exact .inl ⟨_, rfl, by decide⟩
  · dsimp only
    split
    · exact .inl ⟨_, rfl, by decide⟩
    · exact .inr ⟨_, rfl⟩

theorem execute_wp (io : IoState (Volume AnyBackend)) (tables : Admin.Tables AnyBackend)
    (slot : SlotView) (sqe : Sqe) :
    (Io.execute io tables slot sqe).1.wp (CallOk slot sqe) anyOutcome := by
  rcases execute_cases io tables slot sqe with ⟨o, ho, -⟩ | ⟨b, hb⟩
  · rw [ho]
    trivial
  · rw [hb]
    exact serve_wp

/-- **IO commands.** For every 64-byte command, every state of the queue, every namespace and every
slot: in every run the calls made meet `CallOk` and the command does not panic; and a read or write
is answered with an error before any call, unless its transfer is valid for the backend that serves
it and, for a write, is as long as what the transport delivered. -/
theorem io_command_calls_valid (io : IoState (Volume AnyBackend))
    (tables : Admin.Tables AnyBackend) (slot : SlotView) (bs : List UInt8) :
    (∀ ops out, (Io.execute io tables slot (Sqe.readFromBytes bs)).1.Runs ops out →
        (∀ op ∈ ops, CallOk slot (Sqe.readFromBytes bs) op) ∧
        ∀ p, out ≠ some (.error p)) ∧
      ((Sqe.readFromBytes bs).opcode = IoOpcode.read ∨
          (Sqe.readFromBytes bs).opcode = IoOpcode.write →
        (∃ out, (Io.execute io tables slot (Sqe.readFromBytes bs)).1 = .ret out ∧
          out.status ≠ Status.success) ∨
        ∃ b, (Io.execute io tables slot (Sqe.readFromBytes bs)).1
            = Io.serve b slot (Sqe.readFromBytes bs) ∧ RwOk b (Sqe.readFromBytes bs) ∧
          ((Sqe.readFromBytes bs).opcode = IoOpcode.write →
            slot.dataLen = xferLen b (Sqe.readFromBytes bs))) := by
  generalize Sqe.readFromBytes bs = sqe
  refine ⟨fun ops out hr => ?_, fun hop => ?_⟩
  · obtain ⟨hops, hout⟩ := Prog.wp_sound (execute_wp io tables slot sqe) hr
    refine ⟨hops, fun p hp => ?_⟩
    obtain ⟨a, ha, -⟩ := hout _ hp
    cases ha
  · rcases execute_cases io tables slot sqe with ho | ⟨b, hb⟩
    · exact .inl ho
    rw [hb]
    rcases hop with hop | hop
    · have hserve : Io.serve b slot sqe = Io.read b sqe := by
        unfold Io.serve
        rw [if_neg (by rw [hop]; decide), if_pos hop]
      by_cases h : RwOk b sqe
      · exact .inr ⟨b, rfl, h, fun hw => absurd (hop.symm.trans hw) (by decide)⟩
      · rw [hserve]
        exact .inl (read_refused h)
    · have hserve : Io.serve b slot sqe = Io.write b slot sqe := by
        unfold Io.serve
        rw [if_neg (by rw [hop]; decide), if_neg (by rw [hop]; decide), if_pos hop]
      by_cases h : RwOk b sqe ∧ slot.dataLen = xferLen b sqe
      · exact .inr ⟨b, rfl, h.1, fun _ => h.2⟩
      · rw [hserve]
        exact .inl (write_refused h)

def smallMemory : AnyBackend :=
  .memory { blockShift := 9, nrBlocks := 8, blockShift_le := (by decide), bytes_lt := (by decide) }

def writeOneBlock : List UInt8 :=
  [1, 0] ++ toLe 2 5 ++ toLe 4 1 ++ List.replicate 16 0 ++
    (List.replicate 8 0 ++ toLe 4 512 ++ [0, 0, 0, 1]) ++ List.replicate 24 0

def deliveredBlock : SlotView where
  segs := [List.replicate 200 1, List.replicate 312 2]
  dataLen := 512
  covered := by
    simp only [List.flatten_cons, List.flatten_nil, List.length_append, List.length_replicate,
      List.length_nil]
    decide

def boundIo : IoState (Volume AnyBackend) :=
  { IoState.new (Volume AnyBackend) with
    subsys := some { nqn := [1], serial := [], allowAnyHost := true, allowedHosts := [] } }

def smallTables : Admin.Tables AnyBackend := fun _ =>
  .new [{ nsid := 1, backend := { backend := smallMemory, uuid := [] } }]

theorem io_command_calls_valid_write :
    (Io.execute boundIo smallTables deliveredBlock (Sqe.readFromBytes writeOneBlock)).1.Runs
        [.writeSegs smallMemory 0 deliveredBlock.segs 512] none ∧
      CallOk deliveredBlock (Sqe.readFromBytes writeOneBlock)
        (.writeSegs smallMemory 0 deliveredBlock.segs 512) := by
  have hr : (Io.execute boundIo smallTables deliveredBlock (Sqe.readFromBytes writeOneBlock)).1.Runs
      [.writeSegs smallMemory 0 deliveredBlock.segs 512] none :=
    Prog.Runs.call (r := .ok ()) (.cut _)
  exact ⟨hr, ((io_command_calls_valid boundIo smallTables deliveredBlock writeOneBlock).1 _ _ hr).1
    _ (List.mem_singleton.2 rfl)⟩

end Ioutgt.Nvme
