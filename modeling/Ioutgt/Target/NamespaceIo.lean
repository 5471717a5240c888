import Ioutgt.Lib.Run
import Ioutgt.Core.Subsystem
import Ioutgt.Backend.File

/-!
# Namespace IO across the control plane and the queue threads

The parts of the target that decide which open file a disk operation addresses: the control plane
opens backends and changes the namespace tables, slot tasks look a namespace up through their
queue's cache and issue disk operations through their thread's reactor, and the kernel hands out
and takes back descriptor numbers. Every action is one atomic step; any interleaving is a run.

A `FileBackend` is reference-counted: its descriptor is closed when no table, cached snapshot,
running command or control request holds it any more (`State.held`).
-/

namespace Ioutgt.Target

open Ioutgt.Core Ioutgt.Uring Ioutgt.Backend

/-- The fixed layout of a target: which subsystem and which thread each IO queue belongs to. -/
structure Layout where
  nSubsystems : Nat
  nQueues : Nat
  subsysOf : Nat → Nat
  threadOf : Nat → Nat
  filesSupported : Nat → Bool

/-- How far an IO command has got in `io::execute`. -/
inductive Stage where
  | loaded (generation : Nat)
  /-- The command runs against `ns` and holds the snapshot it found it in. -/
  | running (table : NsMap FileBackend) (ns : Namespace FileBackend)
  /-- The backend has resolved its descriptor for a transfer. -/
  | transfer (table : NsMap FileBackend) (ns : Namespace FileBackend) (target : BackendFd)
  deriving DecidableEq

structure Command where
  queue : Nat
  nsid : Nat
  stage : Stage
  deriving DecidableEq

/-- A disk operation as it was issued: for which backend, and which open file it addressed. -/
structure DiskOp where
  backend : FileBackend
  addressed : Option Nat
  deriving DecidableEq

structure State where
  fds : Nat → Option Nat
  nextFile : Nat
  /-- Backends a control request has opened and not yet added. -/
  pending : List FileBackend
  subsystems : Nat → Subsystem FileBackend
  caches : Nat → NsCache FileBackend
  reactors : Nat → Reactor
  commands : List Command
  issued : List DiskOp

inductive Action where
  /-- Something else in the process (a socket, an eventfd, a file opened and given up) opens. -/
  | openOther (fd : Nat)
  | openBackend (fd : Nat)
  | addNamespace (subsys nsid : Nat) (backend : FileBackend)
  | removeNamespace (subsys nsid : Nat)
  | begin (queue nsid : Nat)
  /-- The rest of `NsCache::get`, and the lookup of the namespace. -/
  | lookup (i : Nat)
  /-- `backend_fd()`; `accepts` is the kernel's answer should it be asked to register. -/
  | backendFd (i : Nat) (accepts : Bool)
  | issue (i : Nat)
  | finish (i : Nat)
  | close (fd : Nat)

def Command.held (c : Command) : List FileBackend :=
  match c.stage with
  | .loaded _ => []
  | .running table _ => table.map (·.backend)
  | .transfer table _ _ => table.map (·.backend)

namespace State

variable (L : Layout)

def held (s : State) : List FileBackend :=
  s.pending ++
    ((List.range L.nSubsystems).flatMap fun i => (s.subsystems i).namespaces.map (·.backend)) ++
    ((List.range L.nQueues).flatMap fun q =>
      ((s.caches q).map.getD []).map (·.backend)) ++
    s.commands.flatMap Command.held

/-- Before any namespace is configured: nothing open, no table, fresh reactors. -/
def init : State where
  fds := fun _ => none
  nextFile := 0
  pending := []
  subsystems := fun _ => Subsystem.new []
  caches := fun _ => {}
  reactors := fun t => Reactor.new (L.filesSupported t)
  commands := []
  issued := []

/-- The kernel hands out the free number `fd` for a new open file. -/
def openFd (s : State) (fd : Nat) : Option State :=
  match s.fds fd with
  | some _ => none
  | none => some { s with fds := Function.update s.fds fd (some s.nextFile)
                          nextFile := s.nextFile + 1 }

/-- The effect of a command's steps on its entry in the command list. -/
def setStage (s : State) (i : Nat) (c : Command) (stage : Stage) : State :=
  { s with commands := s.commands.set i { c with stage } }

def step (s : State) : Action → Option State
  | .openOther fd => s.openFd fd
  | .openBackend fd =>
    (s.openFd fd).map fun s' => { s' with pending := ⟨fd, s.nextFile⟩ :: s'.pending }
  | .addNamespace subsys nsid backend =>
    if subsys < L.nSubsystems ∧ backend ∈ s.pending then
      let s := { s with pending := s.pending.erase backend }
      match (s.subsystems subsys).addNamespace ⟨nsid, backend⟩ with
      | .ok t => some { s with subsystems := Function.update s.subsystems subsys t }
      | .error _ => some s
    else none
  | .removeNamespace subsys nsid =>
    if subsys < L.nSubsystems then
      match (s.subsystems subsys).removeNamespace nsid with
      | .ok t => some { s with subsystems := Function.update s.subsystems subsys t }
      | .error _ => some s
    else none
  | .begin queue nsid =>
    if queue < L.nQueues ∧ L.subsysOf queue < L.nSubsystems then
      let generation := (s.subsystems (L.subsysOf queue)).generation
      some { s with commands := s.commands ++ [⟨queue, nsid, .loaded generation⟩] }
    else none
  | .lookup i =>
    match s.commands[i]? with
    | some c =>
      match c.stage with
      | .loaded generation =>
        let snapshot := (s.subsystems (L.subsysOf c.queue)).namespaces
        let (cache, table) := (s.caches c.queue).get generation snapshot
        let s := { s with caches := Function.update s.caches c.queue cache }
        match table.get c.nsid with
        | some ns => some (s.setStage i c (.running table ns))
        -- INVALID_NS: the command is answered without reaching a backend
        | none => some { s with commands := s.commands.eraseIdx i }
      | _ => none
    | none => none
  | .backendFd i accepts =>
    match s.commands[i]? with
    | some c =>
      match c.stage with
      -- a later transfer of the same command resolves its descriptor again
      | .running table ns | .transfer table ns _ =>
        let t := L.threadOf c.queue
        let (r, target) := ns.backend.backendFd (s.reactors t) s.fds accepts
        some ({ s with reactors := Function.update s.reactors t r }.setStage i c
          (.transfer table ns target))
      | .loaded _ => none
    | none => none
  | .issue i =>
    match s.commands[i]? with
    | some c =>
      match c.stage with
      | .transfer _ ns target =>
        let addressed := target.addressed s.fds (s.reactors (L.threadOf c.queue))
        some { s with issued := ⟨ns.backend, addressed⟩ :: s.issued }
      | _ => none
    | none => none
  | .finish i =>
    if i < s.commands.length then some { s with commands := s.commands.eraseIdx i } else none
  | .close fd =>
    if ∃ b ∈ s.held L, b.fd = fd then none
    else some { s with fds := Function.update s.fds fd none }

end State

end Ioutgt.Target
