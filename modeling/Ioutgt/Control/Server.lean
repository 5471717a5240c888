import Ioutgt.Backend.Store
import Ioutgt.Control.Namespaces

/-!
# The control server

How namespace tables come about: from a configuration, and from the requests of the control socket
while queue threads look at them. Requests that only list or count are left out.
-/

namespace Ioutgt.Control.Server

open Ioutgt.Core Ioutgt.Backend

/-! ## Configuration -/

inductive BackendConfig where
  | memory (sizeMb : UInt64)
  | null (sizeMb : UInt64)
  | file (path : String)
  deriving DecidableEq, Repr

def BackendConfig.sizeMb? : BackendConfig → Option UInt64
  | memory sizeMb => some sizeMb
  | null sizeMb => some sizeMb
  | file _ => none

structure SubsystemConfig where
  nqn : String
  namespaces : List (NamespaceConfig BackendConfig)

def validateNamespaces (nqn : String) (seen : List UInt32) :
    List (NamespaceConfig BackendConfig) → Except String Unit
  | [] => return
  | ns :: rest =>
    if reserved ns.nsid then .error s!"{nqn}: nsid {ns.nsid} is reserved"
    else if seen.contains ns.nsid then .error s!"{nqn}: duplicate nsid {ns.nsid}"
    else if ns.backend.sizeMb? = some 0 then
      .error s!"{nqn}: nsid {ns.nsid}: size_mb must be > 0"
    else validateNamespaces nqn (ns.nsid :: seen) rest

def validateEach : List SubsystemConfig → Except String Unit
  | [] => return
  | subsys :: rest => do
    if subsys.nqn.isEmpty ∨ subsys.nqn.utf8ByteSize > 223 then
      throw s!"subsystem nqn '{subsys.nqn}' invalid (1..=223 chars)"
    validateNamespaces subsys.nqn [] subsys.namespaces
    validateEach rest

def validateSubsystems (subsystems : List SubsystemConfig) : Except String Unit :=
  if subsystems.isEmpty then .error "at least one subsystem is required"
  else validateEach subsystems

/-! ## Backends -/

abbrev OpenFile : Type := String → Except String FileStore

def blockShift : Nat := 9

theorem blockShift_le : blockShift ≤ 31 := by decide

def megabytes (sizeMb : UInt64) : Geometry :=
  Geometry.ofSize (sizeMb <<< 20).toNat blockShift {} blockShift_le (UInt64.toNat_lt _)

def buildBackend (openFile : OpenFile) : BackendConfig → Except String AnyBackend
  | .memory sizeMb => return .memory (megabytes sizeMb)
  | .null sizeMb => return .null (megabytes sizeMb)
  | .file path => do
    let store ← openFile path
    return .file store

structure Built where
  config : BackendConfig
  backend : AnyBackend

/-! ## The port -/

structure Port where
  subsystems : List (String × Subsystem Built)

def insertNs (t : NsMap Built) (ns : Namespace Built) : NsMap Built :=
  ns :: t.filter (·.nsid != ns.nsid)

namespace Port

def subsystem (p : Port) (nqn : String) : Option (Subsystem Built) :=
  (p.subsystems.find? (·.1 == nqn)).map (·.2)

def insert (p : Port) (nqn : String) (s : Subsystem Built) : Port :=
  ⟨(nqn, s) :: p.subsystems.filter (·.1 != nqn)⟩

def set (p : Port) (nqn : String) (s : Subsystem Built) : Port :=
  ⟨p.subsystems.map fun e => if e.1 == nqn then (nqn, s) else e⟩

end Port

def buildTable (openFile : OpenFile) (t : NsMap Built) :
    List (NamespaceConfig BackendConfig) → Except String (NsMap Built)
  | [] => return t
  | ns :: rest => do
    let backend ← buildBackend openFile ns.backend
    buildTable openFile (insertNs t ⟨ns.nsid.toNat, ⟨ns.backend, backend⟩⟩) rest

def buildPort (openFile : OpenFile) (p : Port) : List SubsystemConfig → Except String Port
  | [] => return p
  | spec :: rest => do
    let namespaces ← buildTable openFile [] spec.namespaces
    buildPort openFile (p.insert spec.nqn (.new namespaces)) rest

/-! ## Requests -/

inductive Request where
  | addNamespace (subsysnqn : Option String) (nsid : UInt32) (backend : BackendConfig)
  | removeNamespace (subsysnqn : Option String) (nsid : UInt32)

/-- The subsystem a request is about: the one it names, or the only one. -/
def resolve (p : Port) : Option String → Except String (String × Subsystem Built)
  | some nqn =>
    match p.subsystem nqn with
    | some s => .ok (nqn, s)
    | none => .error s!"unknown subsystem '{nqn}'"
  | none =>
    match p.subsystems with
    | [e] => .ok e
    | _ => .error "subsysnqn required (multiple subsystems)"

def handle (openFile : OpenFile) (p : Port) : Request → Except String Port
  | .addNamespace subsysnqn nsid backend => do
    let subsys ← resolve p subsysnqn
    if reserved nsid then throw "nsid reserved"
    let built ← buildBackend openFile backend
    let s ← subsys.2.addNamespace ⟨nsid.toNat, ⟨backend, built⟩⟩
    return p.set subsys.1 s
  | .removeNamespace subsysnqn nsid => do
    let subsys ← resolve p subsysnqn
    let s ← subsys.2.removeNamespace nsid.toNat
    return p.set subsys.1 s

/-! ## Together with the queue threads -/

structure State where
  port : Port
  caches : Nat → NsCache Built
  /-- Every table a command has been given. -/
  observed : List (NsMap Built)

inductive Action where
  | request (r : Request) (openFile : OpenFile)
  | snapshot (nqn : String)
  /-- `NsCache::get` on an IO queue, which has loaded `generation` at some time before. -/
  | get (queue generation : Nat)

namespace State

def init (p : Port) : State := ⟨p, fun _ => {}, []⟩

/-- One action; `subsysOf` is the subsystem an IO queue is connected to. -/
def step (subsysOf : Nat → String) (s : State) : Action → Option State
  | .request r openFile =>
    match handle openFile s.port r with
    | .ok port => some { s with port }
    | .error _ => some s
  | .snapshot nqn =>
    (s.port.subsystem nqn).map fun subsys =>
      { s with observed := subsys.namespaces :: s.observed }
  | .get queue generation =>
    (s.port.subsystem (subsysOf queue)).map fun subsys =>
      let r := (s.caches queue).get generation subsys.namespaces
      { s with caches := Function.update s.caches queue r.1, observed := r.2 :: s.observed }

end State

end Ioutgt.Control.Server
