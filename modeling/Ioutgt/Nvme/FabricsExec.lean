import Ioutgt.Nvme.Dispatch

/-!
# Fabrics command execution

Connect on an admin and on an IO queue, and Property Get/Set.
-/

namespace Ioutgt.Nvme

open Lib Ioutgt.Core

variable {B ε : Type}

def ConnCtx.queueInfo (ctx : ConnCtx B) : QueueInfo :=
  { qid := ctx.qid, sqsize := ctx.sqsize, tid := ctx.tid, cpus := ctx.cpus, peer := ctx.peer }

namespace FabricsExec

/-! ## Connect -/

/-- Connect on an admin queue, once the subsystem is resolved: the dynamic controller model, then a
fresh controller. -/
def createController (ctx : ConnCtx B) (admin : AdminState) (cmd : ConnectCommand)
    (registry : Registry) : Checked ε (Outcome × AdminState × Registry) := do
  let data := ctx.connectData
  let discovery := nqnStr data.subsysnqn == discoveryNqn
  if data.cntlid ≠ 0xFFFF then
    return (.ofStatus (Status.connectInvalidParamResult true 16)
      (Status.connectInvalidParam ||| Status.dnr), admin, registry)
  else
    let maxQid := if discovery then 0 else ctx.port.maxQid
    let kato := if cmd.kato = 0 ∧ discovery then 120000 else cmd.kato
    let (got, registry) ← registry.allocate {
      subsysNqn := nqnStr data.subsysnqn
      hostnqn := nqnStr data.hostnqn
      maxQid := maxQid
      katoMs := kato
      adminQueue := ctx.queueInfo
      discovery := discovery }
    match got with
    | none =>
      return (.ofStatus 0 (Status.connectCtrlBusy ||| Status.dnr), admin, registry)
    | some cntlid =>
      let traffic := match registry.traffic cntlid with
        -- a `OnceCell`: a flag already there stays
        | some flag => admin.traffic <|> some flag
        | none => admin.traffic
      return (.ofStatus cntlid Status.success,
        { admin with cntlid := cntlid, katoMs := kato, traffic := traffic }, registry)

def connectAdmin (ctx : ConnCtx B) (admin : AdminState) (cmd : ConnectCommand)
    (registry : Registry) : Checked ε (Outcome × AdminState × Registry) :=
  let data := ctx.connectData
  -- one Connect per queue
  if admin.cntlid ≠ 0 then
    return (.ofStatus 0 (Status.connectInvalidParam ||| Status.dnr), admin, registry)
  else if nqnStr data.subsysnqn = discoveryNqn then
    createController ctx { admin with discovery := true } cmd registry
  else
    match ctx.port.subsystem (nqnStr data.subsysnqn) with
    | none =>
      return (.ofStatus (Status.connectInvalidParamResult true 256)
        (Status.connectInvalidParam ||| Status.dnr), admin, registry)
    | some subsys =>
      if !subsys.admits (nqnStr data.hostnqn) then
        return (.ofStatus 0 (Status.connectInvalidHost ||| Status.dnr), admin, registry)
      else createController ctx { admin with subsys := some subsys } cmd registry

/-- What an IO queue takes over from the controller it was installed on. -/
def bindIo (ctx : ConnCtx B) (io : IoState B) (cntlid : Nat) (entry : ControllerEntry) :
    IoState B :=
  { io with
    cntlid := cntlid
    katoMs := entry.katoMs
    traffic := if entry.katoMs ≠ 0 then io.traffic <|> some entry.traffic else io.traffic
    subsys := if entry.discovery then io.subsys
      else io.subsys <|> ctx.port.subsystem entry.subsysNqn }

def connectIo (ctx : ConnCtx B) (io : IoState B) (registry : Registry) :
    Outcome × IoState B × Registry :=
  -- already connected: reject a duplicate Connect
  if io.cntlid ≠ 0 then
    (.ofStatus 0 (Status.connectInvalidParam ||| Status.dnr), io, registry)
  else
    let cntlid := ctx.connectData.cntlid
    match registry.installIoQueue cntlid (nqnStr ctx.connectData.hostnqn) ctx.queueInfo with
    | (.ok entry, registry) =>
      (.ofStatus cntlid Status.success, bindIo ctx io cntlid entry, registry)
    | (.error _, registry) =>
      (.ofStatus (Status.connectInvalidParamResult true 16)
        (Status.connectInvalidParam ||| Status.dnr), io, registry)

def connect (ctx : ConnCtx B) (sqe : Sqe) (registry : Registry) :
    Checked ε (Outcome × ConnCtx B × Registry) := do
  let cmd := ConnectCommand.refFromBytes sqe.asBytes
  if cmd.recfmt ≠ 0 then
    return (.ofStatus 0 (Status.connectFormat ||| Status.dnr), ctx, registry)
  else
    match ctx.role with
    | .admin admin =>
      let (out, admin, registry) ← connectAdmin ctx admin cmd registry
      return (out, { ctx with role := .admin admin }, registry)
    | .io io =>
      let (out, io, registry) := connectIo ctx io registry
      return (out, { ctx with role := .io io }, registry)

/-! ## Properties -/

def propertyGet (admin : AdminState) (offset : Nat) : Outcome :=
  let value : Option (BitVec 64) :=
    if offset = Property.cap then some admin.regs.cap
    else if offset = Property.vs then some 0x00010300
    else if offset = Property.cc then some (admin.regs.cc.setWidth 64)
    else if offset = Property.csts then some (admin.regs.csts.setWidth 64)
    else none
  match value with
  | some v => { Outcome.ofStatus (v.setWidth 32).toNat Status.success with
      rsvd := (v >>> 32).toNat }
  | none => .ofStatus 0 (Status.invalidField ||| Status.dnr)

def propertySet (admin : AdminState) (offset value : Nat) : Outcome × AdminState :=
  if offset = Property.cc then
    if admin.cntlid = 0 then (.ofStatus 0 (Status.invalidField ||| Status.dnr), admin)
    else
      (.ofStatus 0 Status.success,
        { admin with regs := (admin.regs.writeCc (BitVec.ofNat 32 value)).2 })
  else (.ofStatus 0 (Status.invalidField ||| Status.dnr), admin)

def property (ctx : ConnCtx B) (sqe : Sqe) (fct : Nat) : Outcome × ConnCtx B :=
  let cmd := PropertyCommand.refFromBytes sqe.asBytes
  match ctx.role with
  | .io _ => (.ofStatus 0 (Status.invalidField ||| Status.dnr), ctx)
  | .admin admin =>
    if fct = Fctype.propertyGet then (propertyGet admin cmd.offset, ctx)
    else
      let (out, admin) := propertySet admin cmd.offset cmd.value
      (out, { ctx with role := .admin admin })

def execute (ctx : ConnCtx B) (sqe : Sqe) (registry : Registry) :
    Checked ε (Outcome × ConnCtx B × Registry) :=
  let fct := byteAt sqe.asBytes 4
  if fct = Fctype.connect then connect ctx sqe registry
  else if fct = Fctype.propertyGet ∨ fct = Fctype.propertySet then
    let (out, ctx) := property ctx sqe fct
    return (out, ctx, registry)
  else
    return (.ofStatus 0 (Status.invalidOpcode ||| Status.dnr), ctx, registry)

end FabricsExec

end Ioutgt.Nvme
