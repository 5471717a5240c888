import Ioutgt.Nvme.Proof.Execute

/-!
# What a dispatched admin command does to the pending events

* `Admin.asyncEvent_spec`: the three ways a poll of an event request can go;
* `Handled`, `execute_admin`: all that a command on an admin queue can do to the event queue, the
  changed-namespace flag and the teardown mark, with its answer where these decide it.
-/

namespace Ioutgt.Nvme

open Lib Ioutgt.Core

variable {B ε : Type} {sqe : Sqe} {a : AdminState}

inductive EventPoll (a : AdminState) : Option Outcome → AdminState → Prop where
  | closed (closing : a.closing = true) : EventPoll a (some (.ofStatus 0 Status.success)) a
  | notified {event : Nat} {rest : List Nat} (closing : a.closing = false)
    (events : a.events = event :: rest) :
    EventPoll a (some (.ofStatus event Status.success)) { a with events := rest }
  | idle (closing : a.closing = false) (events : a.events = []) : EventPoll a none a

theorem Admin.asyncEvent_spec (a : AdminState) :
    EventPoll a (Admin.asyncEvent a).1 (Admin.asyncEvent a).2 := by
  unfold Admin.asyncEvent
  split
  · rename_i hc
    exact .closed hc
  · rename_i hc
    have hopen : a.closing = false := by simpa using hc
    split
    · rename_i event rest he
      exact .notified hopen he
    · rename_i he
      exact .idle hopen he

def AsksChangedNs (sqe : Sqe) : Prop :=
  sqe.opcode = AdminOpcode.getLogPage ∧ sqe.cdw10 &&& 0xFF = LogPage.changedNs

/-- What a command on an admin queue can do to the pending events. -/
inductive Handled (port : PortConfig) (a : AdminState) (sqe : Sqe) : Reply B → AdminState → Prop where
  | event {out : Outcome} {a₁ a' : AdminState} (ready : a.regs.ready = true)
    (op : sqe.opcode = AdminOpcode.asyncEvent) (polled : EventPoll a (some out) a₁)
    (same : SameEvents a₁ a') : Handled port a sqe (.done out) a'
  | waits {a' : AdminState} (ready : a.regs.ready = true)
    (op : sqe.opcode = AdminOpcode.asyncEvent) (polled : EventPoll a none a)
    (same : SameEvents a a') : Handled port a sqe .parked a'
  | changedNs {a' : AdminState} (ready : a.regs.ready = true) (op : AsksChangedNs sqe)
    (same : SameEvents { a with nsChanged := false } a') :
    Handled port a sqe (.done (Admin.getLogPage port a sqe).1) a'
  | busy {a' : AdminState} (ready : a.regs.ready = false) (same : SameEvents a a') :
    Handled port a sqe (.done (.ofStatus 0 (Status.connectCtrlBusy ||| Status.dnr))) a'
  | other {out : Outcome} {a' : AdminState} (event : sqe.opcode ≠ AdminOpcode.asyncEvent)
    (log : ¬AsksChangedNs sqe) (same : SameEvents a a') : Handled port a sqe (.done out) a'

theorem Admin.setFeatures_same (port : PortConfig) (a : AdminState) (sqe : Sqe) :
    SameEvents a (Admin.setFeatures port a sqe).2 := by
  unfold Admin.setFeatures
  dsimp only
  repeat' split
  all_goals exact ⟨rfl, rfl, rfl⟩

theorem Admin.getLogPage_lastHeard (port : PortConfig) (a : AdminState) (sqe : Sqe) (now : Nat) :
    (Admin.getLogPage port { a with lastHeard := now } sqe).1 = (Admin.getLogPage port a sqe).1 := by
  unfold Admin.getLogPage
  dsimp only
  repeat' split
  all_goals rfl

theorem Admin.getLogPage_changedNs (port : PortConfig) (a : AdminState) (h : AsksChangedNs sqe) :
    SameEvents { a with nsChanged := false } (Admin.getLogPage port a sqe).2 := by
  unfold Admin.getLogPage
  dsimp only
  rw [h.2, if_neg (fun hd => absurd hd.1 (by decide)), if_pos rfl]
  exact ⟨rfl, rfl, rfl⟩

/-- With a change on record the Changed Namespace log has, as its first entry, "more changed than
fits". -/
theorem Admin.getLogPage_reports (port : PortConfig) (h : AsksChangedNs sqe)
    (hn : a.nsChanged = true) :
    (Admin.getLogPage port a sqe).1.status = Status.success ∧
      4 ≤ (Admin.getLogPage port a sqe).1.dataLen ∧
      (Admin.getLogPage port a sqe).1.data.take 4 = [0xFF, 0xFF, 0xFF, 0xFF] := by
  have hlen : 4 ≤ Nat.min (Admin.logLen sqe) 4096 := by
    refine Nat.le_min.2 ⟨?_, by decide⟩
    unfold Admin.logLen
    omega
  unfold Admin.getLogPage
  dsimp only
  rw [h.2, if_neg (fun hd => absurd hd.1 (by decide)), if_pos rfl, hn, if_pos rfl]
  generalize Nat.min (Admin.logLen sqe) 4096 = n at hlen
  refine ⟨rfl, hlen, ?_⟩
  dsimp only [Admin.fillSlot]
  have hcap : 4 ≤ Nat.min ((toLe 4 (2 ^ 32 - 1) ++ zeros 4092).take n).length adminDataMax := by
    refine Nat.le_min.2 ⟨?_, by decide⟩
    rw [List.length_take, List.length_append, toLe_length]
    omega
  rw [List.take_take, List.take_take, Nat.min_eq_left hcap, Nat.min_eq_left hlen]
  rfl

theorem Admin.getLogPage_same (port : PortConfig) (a : AdminState)
    (h : sqe.cdw10 &&& 0xFF ≠ LogPage.changedNs) :
    SameEvents a (Admin.getLogPage port a sqe).2 := by
  unfold Admin.getLogPage
  dsimp only
  rw [if_neg h]
  repeat' split
  all_goals exact ⟨rfl, rfl, rfl⟩

theorem Admin.execute_handled [Backend B] (port : PortConfig) (tables : Admin.Tables B)
    (a : AdminState) (sqe : Sqe) (now : Nat) (hready : a.regs.ready = true) :
    Handled (B := B) port a sqe
      ((Admin.execute port tables { a with lastHeard := now } sqe).1.elim .parked .done)
      (Admin.execute port tables { a with lastHeard := now } sqe).2 := by
  have hother : ∀ {op : Nat} {out : Outcome} {a' : AdminState}, sqe.opcode = op →
      op ≠ AdminOpcode.asyncEvent → op ≠ AdminOpcode.getLogPage →
      SameEvents { a with lastHeard := now } a' → Handled (B := B) port a sqe (.done out) a' :=
    fun hop hne hlog hs => .other (hop ▸ hne) (fun h => hlog (hop ▸ h.1)) ⟨hs.1, hs.2, hs.3⟩
  unfold Admin.execute
  split
  · exact hother ‹_› (by decide) (by decide) (.refl _)
  split
  · exact hother ‹_› (by decide) (by decide) (.refl _)
  split
  · exact hother ‹_› (by decide) (by decide) (Admin.setFeatures_same port _ sqe)
  split
  · rename_i hop
    by_cases hlid : sqe.cdw10 &&& 0xFF = LogPage.changedNs
    · have hs := Admin.getLogPage_changedNs port { a with lastHeard := now } ⟨hop, hlid⟩
      dsimp only [Option.elim]
      rw [Admin.getLogPage_lastHeard]
      exact .changedNs hready ⟨hop, hlid⟩ ⟨hs.1, hs.2, hs.3⟩
    · have hs := Admin.getLogPage_same port { a with lastHeard := now } hlid
      exact .other (by rw [hop]; decide) (fun h => hlid h.2) ⟨hs.1, hs.2, hs.3⟩
  split
  · exact hother ‹_› (by decide) (by decide) (.refl _)
  split
  · rename_i hop
    have hpoll := Admin.asyncEvent_spec { a with lastHeard := now }
    generalize Admin.asyncEvent { a with lastHeard := now } = r at hpoll
    obtain ⟨o, a'⟩ := r
    cases hpoll with
    | closed hc => exact .event hready hop (.closed hc) ⟨rfl, rfl, rfl⟩
    | notified hc he => exact .event hready hop (.notified hc he) ⟨rfl, rfl, rfl⟩
    | idle hc he => exact .waits hready hop (.idle hc he) ⟨rfl, rfl, rfl⟩
  · rename_i hlog _ hev
    exact .other hev (fun h => hlog h.1) ⟨rfl, rfl, rfl⟩

theorem fabrics_admin (ctx : ConnCtx B) (hrole : ctx.role = .admin a) (sqe : Sqe) (r : Registry) :
    ∃ out a' r', (FabricsExec.execute ctx sqe r : Checked ε _)
        = .ok (out, { ctx with role := .admin a' }, r') ∧ SameEvents a a' := by
  have hkeep : ctx = { ctx with role := .admin a } := by rw [← hrole]
  unfold FabricsExec.execute
  dsimp only
  split
  · unfold FabricsExec.connect
    dsimp only
    split
    · exact ⟨_, a, r, by rw [← hkeep]; rfl, .refl a⟩
    · rw [hrole]
      dsimp only
      obtain ⟨out, hc⟩ | ⟨-, a₁, -, -, hsame, ⟨out, hc⟩ | ⟨out, id, traffic, -, -, hc⟩⟩ :=
        FabricsExec.connectAdmin_spec (ε := ε) ctx a (ConnectCommand.refFromBytes sqe.asBytes) r
      · rw [hc]
        exact ⟨_, _, _, rfl, .refl a⟩
      · rw [hc]
        exact ⟨_, _, _, rfl, hsame⟩
      · rw [hc]
        exact ⟨_, _, _, rfl, hsame.1, hsame.2, hsame.3⟩
  · split
    · unfold FabricsExec.property
      rw [hrole]
      dsimp only
      split
      · exact ⟨_, a, r, by rw [← hkeep]; rfl, .refl a⟩
      · refine ⟨_, _, r, rfl, ?_⟩
        unfold FabricsExec.propertySet
        repeat' split
        all_goals exact ⟨rfl, rfl, rfl⟩
    · exact ⟨_, a, r, by rw [← hkeep]; rfl, .refl a⟩

/-- **What dispatching a command on an admin queue comes to.** -/
theorem execute_admin [Backend B] (ctx : ConnCtx (Volume B)) (hrole : ctx.role = .admin a)
    (tables : Admin.Tables B) (r : Registry) (now : Nat) (slot : SlotView) (sqe : Sqe) :
    ∃ reply a' r', (execute ctx tables r now slot sqe : Checked ε _)
        = .ok (reply, { ctx with role := .admin a' }, r') ∧ Handled ctx.port a sqe reply a' := by
  have hheard : ctx.heard now = { ctx with role := .admin { a with lastHeard := now } } := by
    unfold ConnCtx.heard
    rw [hrole]
  unfold execute
  dsimp only
  rw [hheard]
  split
  · rename_i hop
    obtain ⟨out, a', r', hf, hsame⟩ :=
      fabrics_admin (ε := ε) { ctx with role := .admin { a with lastHeard := now } } rfl sqe r
    rw [hf]
    refine ⟨_, a', r', rfl, .other (by rw [hop]; decide) (fun h => ?_) ⟨hsame.1, hsame.2, hsame.3⟩⟩
    exact absurd (hop.symm.trans h.1) (by decide)
  · dsimp only
    cases hready : a.regs.ready with
    | false => exact ⟨_, _, r, rfl, .busy hready ⟨rfl, rfl, rfl⟩⟩
    | true =>
      have hh := Admin.execute_handled ctx.port tables a sqe now hready
      generalize Admin.execute ctx.port tables { a with lastHeard := now } sqe = x at hh ⊢
      obtain ⟨out, a'⟩ := x
      cases out with
      | some out => exact ⟨_, a', r, rfl, hh⟩
      | none => exact ⟨_, a', r, rfl, hh⟩

end Ioutgt.Nvme
