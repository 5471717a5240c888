import Ioutgt.Core.Backend
import Ioutgt.Nvme.Dispatch
import Ioutgt.Nvme.Identify

/-!
# Admin command handlers

Identify, Features, Log pages, Keep Alive and Async Event Requests. The handlers see the namespace
tables as they are at that moment. A handler that parks returns `none`.
-/

namespace Ioutgt.Nvme

open Lib Ioutgt.Core

def adminDataMax : Nat := 8 * 1024

def rdmaInlineDataSize : Nat := 4096

def inlineDataSize : Nat := 16 * 1024

namespace Admin

def kasUnits : Nat := 100

def aerl : Nat := 3

variable {B : Type}

abbrev Tables (B : Type) : Type := Nqn → Subsystem (Volume B)

def fillSlot (data : List UInt8) : Outcome :=
  let n := Nat.min data.length adminDataMax
  { Outcome.ofStatus 0 Status.success with dataLen := n, data := data.take n }

/-! ## Identify -/

def buildIdCtrl (port : PortConfig) (tables : Tables B) (admin : AdminState) :
    IdentifyController :=
  let discovery := admin.discovery
  let rdma := port.trtype == .rdma
  let inline := if rdma then rdmaInlineDataSize else inlineDataSize
  { sn := match admin.subsys with
      | some s => s.serial
      | none => utf8 "ioutgt-disc"
    mn := utf8 "ioutgt"
    fr := utf8 "1.0"
    -- multi-controller capability, except for discovery
    cmic := if discovery then 0 else 1 <<< 1
    -- 128K = 2^5 * 4K
    mdts := 5
    cntlid := admin.cntlid
    ver := 0x00010300
    oaes := aenCfgNsAttr
    -- traffic-based keep-alive only where every queue publishes its traffic
    ctratt := if !discovery && port.trtype == .tcp then 1 <<< 6 else 0
    cntrltype := if discovery then 2 else 1
    acl := 3
    aerl := aerl
    kas := kasUnits
    sqes := 0x66
    cqes := 0x44
    maxcmd := port.ioQueueSize
    nn := if discovery then 0 else
      match admin.subsys with
      | some s => (tables s.nqn).maxNsid
      | none => 0
    oncs := if discovery then 0 else (1 <<< 2) ||| (1 <<< 3)
    vwc := if discovery then 0 else 1
    -- byte-aligned; RDMA hosts need keyed descriptors and address-as-offset
    sgls := if rdma then 1 ||| (1 <<< 2) ||| (1 <<< 20) else 1
    subnqn := match admin.subsys with
      | some s => s.nqn
      | none => discoveryNqn
    ioccsz := if discovery then 0 else (64 + inline) / 16
    iorcsz := if discovery then 0 else 1
    icdoff := 0 }

def to0based (lbs bytes : Nat) : Nat := Nat.max 1 (Nat.min (bytes / lbs) 0x10000) - 1

def buildIdNs [Backend B] (backend : B) : IdentifyNamespace :=
  let blocks := Backend.nrBlocks backend
  let shift := Backend.blockShift backend
  let topo := Backend.topology backend
  let id : IdentifyNamespace :=
    { nsze := blocks, ncap := blocks, nuse := blocks, nmic := 1, dlfeat := 1, lbads := shift }
  -- a store with no topology advertises nothing
  if topo = {} then id
  else
    let nawun := to0based (1 <<< shift) topo.physicalBlock
    let npwg := to0based (1 <<< shift) topo.ioMin
    let npdg := to0based (1 <<< shift) topo.discardGranularity
    { id with
      nsfeat := (1 <<< 1) ||| (3 <<< 4)
      nawun := nawun, nawupf := nawun, nacwu := nawun
      npwg := npwg, npwa := npwg, npdg := npdg, npda := npdg
      nows := to0based (1 <<< shift) topo.ioOpt }

def nsListMax : Nat := 1024

/-- The active namespace list after `start`: ids in the table's order, zero-filled to a page. -/
def activeNsList (table : NsMap (Volume B)) (start : Nat) : List UInt8 :=
  fit 0 4096 (((table.keys.filter (start < ·)).take nsListMax).flatMap (toLe 4))

def nsDescList (uuid : List UInt8) : List UInt8 :=
  fit 0 4096 ([3, 16, 0, 0] ++ fit 0 16 uuid)

def identify [Backend B] (port : PortConfig) (tables : Tables B) (admin : AdminState) (sqe : Sqe) :
    Outcome :=
  let which := sqe.cdw10 &&& 0xFF
  if which = Cns.controller then fillSlot (buildIdCtrl port tables admin).asBytes
  else if which = Cns.namespace then
    match admin.subsys with
    | none => .ofStatus 0 (Status.invalidNs ||| Status.dnr)
    | some subsys =>
      match (tables subsys.nqn).namespaces.get sqe.nsid with
      | some ns => fillSlot (buildIdNs ns.backend.backend).asBytes
      | none =>
        -- inactive NSID: all-zero structure
        if sqe.nsid ≤ (tables subsys.nqn).maxNsid then fillSlot IdentifyNamespace.zeroed.asBytes
        else .ofStatus 0 (Status.invalidNs ||| Status.dnr)
  else if which = Cns.activeNsList then
    match admin.subsys with
    | none => fillSlot (zeros 4096)
    | some subsys => fillSlot (activeNsList (tables subsys.nqn).namespaces sqe.nsid)
  else if which = Cns.nsDescList then
    match admin.subsys.bind fun s => (tables s.nqn).namespaces.get sqe.nsid with
    | some ns => fillSlot (nsDescList ns.backend.uuid)
    | none => .ofStatus 0 (Status.invalidNs ||| Status.dnr)
  else .ofStatus 0 (Status.invalidField ||| Status.dnr)

/-! ## Features -/

def ioQueueCount (port : PortConfig) (admin : AdminState) : Nat :=
  if admin.subsys.isSome then Nat.max port.maxQid 1 else 1

def getFeatures (port : PortConfig) (admin : AdminState) (sqe : Sqe) : Outcome :=
  let fid := sqe.cdw10 &&& 0xFF
  if fid = Feat.numQueues then
    let queues := ioQueueCount port admin - 1
    .ofStatus (queues ||| (queues <<< 16)) Status.success
  else if fid = Feat.kato then .ofStatus admin.katoMs Status.success
  else if fid = Feat.asyncEventConfig then .ofStatus admin.aec Status.success
  else if fid = Feat.volatileWc ∧ !admin.discovery then .ofStatus 1 Status.success
  else .ofStatus 0 (Status.invalidField ||| Status.dnr)

def setFeatures (port : PortConfig) (admin : AdminState) (sqe : Sqe) : Outcome × AdminState :=
  let fid := sqe.cdw10 &&& 0xFF
  if fid = Feat.numQueues then
    let offered := ioQueueCount port admin - 1
    let granted := Nat.min (sqe.cdw11 &&& 0xFFFF) offered
    (.ofStatus (granted ||| (granted <<< 16)) Status.success, admin)
  else if fid = Feat.kato then (.ofStatus 0 Status.success, { admin with katoMs := sqe.cdw11 })
  else if fid = Feat.asyncEventConfig then
    (.ofStatus 0 Status.success, { admin with aec := sqe.cdw11 })
  else if fid = Feat.hostId then (.ofStatus 0 Status.success, admin)
  else (.ofStatus 0 (Status.featureNotChangeable ||| Status.dnr), admin)

/-! ## Log pages -/

def discoveryLogHeader (numrec : Nat) : List UInt8 :=
  toLe 8 1 ++ toLe 8 numrec ++ toLe 2 0 ++ zeros 1006

def trtypeByte : TransportType → Nat
  | .tcp => 3
  | .rdma => 1

def discoveryLogEntryHead (port : PortConfig) (index : Nat) : List UInt8 :=
  -- transport, IPv4, NVM subsystem, no requirements
  toLe 1 (trtypeByte port.trtype) ++ toLe 1 1 ++ toLe 1 2 ++ toLe 1 0 ++
    -- port id, dynamic controllers, admin queue size, flags
    toLe 2 (if index < 2 ^ 16 then index else 0) ++ toLe 2 0xFFFF ++ toLe 2 32 ++ toLe 2 0 ++
    zeros 20 ++ asciiPad 32 port.trsvcid ++ zeros 192

def discoveryLogEntry (port : PortConfig) (index : Nat) (nqn : Nqn) : List UInt8 :=
  discoveryLogEntryHead port index ++ (nulTerminate 256 nqn ++
    (asciiPad 256 port.traddr ++ zeros 256))

/-- Discovery log: header and one entry per NVM subsystem on this port. -/
def buildDiscoveryLog (port : PortConfig) : List UInt8 :=
  discoveryLogHeader port.subsystems.length ++
    (port.subsystems.zipIdx.flatMap fun e => discoveryLogEntry port e.2 e.1.nqn)

/-- Bytes a Get Log Page asks for: NUMD is 0-based, in dwords, split across two dwords. -/
def logLen (sqe : Sqe) : Nat := ((((sqe.cdw11 &&& 0xFFFF) <<< 16) ||| (sqe.cdw10 >>> 16)) + 1) * 4

def logOffset (sqe : Sqe) : Nat := (sqe.cdw13 <<< 32) ||| sqe.cdw12

def getLogPage (port : PortConfig) (admin : AdminState) (sqe : Sqe) : Outcome × AdminState :=
  let lid := sqe.cdw10 &&& 0xFF
  let len := logLen sqe
  let offset := logOffset sqe
  if lid = LogPage.discovery ∧ admin.discovery then
    let log := buildDiscoveryLog port
    -- `saturating_add`
    let stop := Nat.min (Nat.min (offset + len) (2 ^ 64 - 1)) log.length
    let start := Nat.min offset stop
    (fillSlot (slice log start (stop - start)), admin)
  else if lid = LogPage.changedNs then
    -- one entry that says "more changed than fits"; reading clears it
    let page := if admin.nsChanged then toLe 4 (2 ^ 32 - 1) ++ zeros 4092 else zeros 4096
    let n := Nat.min len 4096
    ({ fillSlot (page.take n) with dataLen := n }, { admin with nsChanged := false })
  else if lid = LogPage.error ∨ lid = LogPage.smart ∨ lid = LogPage.fwSlot then
    let n := Nat.min len 4096
    ({ Outcome.ofStatus 0 Status.success with dataLen := n, data := zeros n }, admin)
  else (.ofStatus 0 (Status.invalidLogPage ||| Status.dnr), admin)

/-! ## Routing -/

/-- One poll of an Async Event Request: it resolves when an event is pending, or at teardown. -/
def asyncEvent (admin : AdminState) : Option Outcome × AdminState :=
  if admin.closing then (some (.ofStatus 0 Status.success), admin)
  else
    match admin.events with
    | event :: rest => (some (.ofStatus event Status.success), { admin with events := rest })
    | [] => (none, admin)

def execute [Backend B] (port : PortConfig) (tables : Tables B) (admin : AdminState) (sqe : Sqe) :
    Option Outcome × AdminState :=
  if sqe.opcode = AdminOpcode.identify then (some (identify port tables admin sqe), admin)
  else if sqe.opcode = AdminOpcode.getFeatures then (some (getFeatures port admin sqe), admin)
  else if sqe.opcode = AdminOpcode.setFeatures then
    let (out, admin) := setFeatures port admin sqe
    (some out, admin)
  else if sqe.opcode = AdminOpcode.getLogPage then
    let (out, admin) := getLogPage port admin sqe
    (some out, admin)
  else if sqe.opcode = AdminOpcode.keepAlive then (some (.ofStatus 0 Status.success), admin)
  else if sqe.opcode = AdminOpcode.asyncEvent then asyncEvent admin
  else (some (.ofStatus 0 (Status.invalidOpcode ||| Status.dnr)), admin)

end Admin

end Ioutgt.Nvme
