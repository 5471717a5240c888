import Ioutgt.Nvme.FabricsExec
import Ioutgt.Nvme.Io

/-!
# Command dispatch

Every command arrives in a slot; the slot task routes it by queue role and opcode.
-/

namespace Ioutgt.Nvme

open Lib Ioutgt.Core

inductive Reply (B : Type) where
  | done (out : Outcome)
  | parked
  | running (handler : IoProg B Outcome)

variable {B ε : Type} [Backend B]

def ConnCtx.heard {B : Type} (ctx : ConnCtx B) (now : Nat) : ConnCtx B :=
  match ctx.role with
  | .admin a => { ctx with role := .admin { a with lastHeard := now } }
  | .io _ => ctx

def execute (ctx : ConnCtx (Volume B)) (tables : Admin.Tables B) (registry : Registry) (now : Nat)
    (slot : SlotView) (sqe : Sqe) :
    Checked ε (Reply B × ConnCtx (Volume B) × Registry) := do
  let ctx := ctx.heard now
  -- fabrics commands are legal on both queue types
  if sqe.opcode = AdminOpcode.fabrics then
    let (out, ctx, registry) ← FabricsExec.execute ctx sqe registry
    return (.done out, ctx, registry)
  else
    match ctx.role with
    | .admin a =>
      -- everything but Connect/Property requires an enabled controller
      if !a.regs.ready then
        return (.done (.ofStatus 0 (Status.connectCtrlBusy ||| Status.dnr)), ctx, registry)
      else
        match Admin.execute ctx.port tables a sqe with
        | (some out, a) => return (.done out, { ctx with role := .admin a }, registry)
        | (none, a) => return (.parked, { ctx with role := .admin a }, registry)
    | .io io =>
      let (handler, io) := Io.execute io tables slot sqe
      return (.running handler, { ctx with role := .io io }, registry)

end Ioutgt.Nvme
