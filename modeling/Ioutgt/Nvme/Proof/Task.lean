import Ioutgt.Nvme.Task

/-!
# Where the handlers build their completion entry

Every handler is the dispatcher's handler with the completion entry built at its end: nothing is
awaited between the advance of the SQ head and the handler's return, and the head is advanced once.

* `read_eq`, `write_eq`, `dsm_eq`, `serve_eq`, `ioExecute_eq`: the handlers that call a backend.
* `EndsInHead`: along every path the head is advanced once, and the handler returns with that head.
* `execute_endsInHead`: so does what a slot task runs, whatever the command.
-/

namespace Ioutgt.Nvme.Task

open Lib Ioutgt.Core

variable {B : Type}

def awaits {α : Type} (p : IoProg B α) : TaskProg B α := p.lift TaskOp.io fun _ r => r

section Io

variable [Backend B] (qid : Nat)

theorem read_eq (backend : B) (sqe : Sqe) :
    read qid backend sqe = awaits (Io.read backend sqe) >>= ofOutcome qid sqe.cid := by
  unfold read Io.read
  rcases Io.checkedLen backend sqe with (code | panic) | ⟨rw, len⟩
  · rfl
  · rfl
  · refine congrArg (Prog.call (TaskOp.io (.lease len))) (funext fun segs => ?_)
    refine congrArg (Prog.call (TaskOp.io (.readSegs backend rw.slba segs.1 len)))
      (funext fun result => ?_)
    cases result with
    | error e => rfl
    | ok bytes => rfl

omit [Backend B] in
theorem mapBackend_eq (cid : Nat) (result : Except BackendError Unit) :
    (mapBackend qid cid result 0 : TaskProg B Completed)
      = ofOutcome qid cid (Io.mapBackend result) := by
  cases result <;> rfl

theorem write_eq (backend : B) (slot : SlotView) (sqe : Sqe) :
    write qid backend slot sqe
      = awaits (Io.write backend slot sqe) >>= ofOutcome qid sqe.cid := by
  unfold write Io.write
  rcases Io.checkedLen backend sqe with (code | panic) | ⟨rw, len⟩
  · rfl
  · rfl
  · simp only [Prog.ofChecked, bind, Prog.bind]
    split
    · rfl
    · refine congrArg (Prog.call (TaskOp.io (.writeSegs backend rw.slba slot.segs len)))
        (funext fun result => ?_)
      cases result with
      | error e => rfl
      | ok u =>
        dsimp only [Prog.bind]
        cases rw.fua with
        | false => rfl
        | true =>
          refine congrArg (Prog.call (TaskOp.io (.flush backend))) (funext fun result => ?_)
          exact mapBackend_eq qid sqe.cid result

omit [Backend B] in
theorem dsm_eq (backend : B) (slot : SlotView) (sqe : Sqe) :
    dsm qid backend slot sqe = awaits (Io.dsm backend slot sqe) >>= ofOutcome qid sqe.cid := by
  unfold dsm Io.dsm
  dsimp only
  split
  · rfl
  · split
    · rfl
    · refine congrArg (Prog.call (TaskOp.io _)) (funext fun result => ?_)
      exact mapBackend_eq qid sqe.cid result

theorem serve_eq (backend : B) (slot : SlotView) (sqe : Sqe) :
    serve qid backend slot sqe = awaits (Io.serve backend slot sqe) >>= ofOutcome qid sqe.cid := by
  unfold serve Io.serve
  split
  · refine congrArg (Prog.call (TaskOp.io (.flush backend))) (funext fun result => ?_)
    exact mapBackend_eq qid sqe.cid result
  split
  · exact read_eq qid backend sqe
  split
  · exact write_eq qid backend slot sqe
  split
  · dsimp only
    rcases (Checked.add 32 (RwCommand.parse sqe).nlb 1 : Checked Empty Nat) with (e | panic) | nlb
    · exact e.elim
    · rfl
    · refine congrArg (Prog.call (TaskOp.io _)) (funext fun result => ?_)
      exact mapBackend_eq qid sqe.cid result
  split
  · exact dsm_eq qid backend slot sqe
  · rfl

theorem ioExecute_eq (io : IoState (Volume B)) (tables : Admin.Tables B) (slot : SlotView)
    (sqe : Sqe) :
    ioExecute qid io tables slot sqe =
      (awaits (Io.execute io tables slot sqe).1 >>= ofOutcome qid sqe.cid,
        (Io.execute io tables slot sqe).2) := by
  unfold ioExecute Io.execute
  cases io.subsys with
  | none => rfl
  | some subsys =>
    dsimp only
    generalize NsMap.get _ sqe.nsid = found
    cases found with
    | none => rfl
    | some ns => exact congrArg (·, _) (serve_eq qid ns.backend.backend slot sqe)

end Io

/-! ## The head -/

/-- Along every path the head is advanced once, last, and the handler returns with it. -/
def EndsInHead : TaskProg B Completed → Prop
  | .ret _ => False
  | .abort _ => True
  | .call .advanceSqhd k => ∀ head, ∃ done, k head = .ret done ∧ done.cqe.sqHead = head
  | .call (.io _) k => ∀ r, EndsInHead (k r)
  | .call .event k => ∀ r, EndsInHead (k r)

theorem endsInHead_status (qid result cid code : Nat) :
    EndsInHead (status qid result cid code : TaskProg B Completed) :=
  fun _ => ⟨_, rfl, rfl⟩

theorem endsInHead_ofOutcome (qid cid : Nat) (out : Outcome) :
    EndsInHead (ofOutcome qid cid out : TaskProg B Completed) :=
  fun _ => ⟨_, rfl, rfl⟩

theorem endsInHead_awaits (qid cid : Nat) (p : IoProg B Outcome) :
    EndsInHead (awaits p >>= ofOutcome qid cid) := by
  induction p with
  | ret out => exact endsInHead_ofOutcome qid cid out
  | abort panic => trivial
  | call op k ih => exact fun r => ih r

theorem endsInHead_ofReply {qid cid : Nat} {reply : Reply B} {p : TaskProg B Completed}
    (h : (ofReply qid cid reply : Checked Empty _) = .ok p) : EndsInHead p := by
  cases reply with
  | done out =>
    obtain rfl := Except.ok.inj h
    exact endsInHead_ofOutcome qid cid out
  | parked =>
    obtain rfl := Except.ok.inj h
    exact fun result => endsInHead_status qid result cid Status.success
  | running handler => cases h

/-- **Whatever the command, its slot task advances the head once, as the last thing before it
returns.** -/
theorem execute_endsInHead [Backend B] {ctx ctx' : ConnCtx (Volume B)} {tables : Admin.Tables B}
    {registry registry' : Registry} {now : Nat} {slot : SlotView} {sqe : Sqe}
    {p : TaskProg B Completed}
    (h : (execute ctx tables registry now slot sqe : Checked Empty _) = .ok (p, ctx', registry')) :
    EndsInHead p := by
  unfold execute at h
  split at h
  · rename_i io _ _
    have hp : (ioExecute ctx.qid io tables slot sqe).1 = p :=
      congrArg Prod.fst (Except.ok.inj h)
    rw [ioExecute_eq] at hp
    exact hp ▸ endsInHead_awaits ctx.qid sqe.cid _
  · obtain ⟨⟨reply, ctx1, registry1⟩, -, h⟩ := Checked.bind_eq_ok.mp h
    obtain ⟨p1, hp, h⟩ := Checked.bind_eq_ok.mp h
    obtain rfl := congrArg Prod.fst (Except.ok.inj h)
    exact endsInHead_ofReply hp

end Ioutgt.Nvme.Task
