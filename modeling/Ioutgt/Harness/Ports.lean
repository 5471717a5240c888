import Ioutgt.Core.Registry

/-!
# Port processes

A configuration with several ports is served by one process a port. Each has a controller registry
of its own, over a slice of the controller ids.
-/

namespace Ioutgt.Harness

open Lib Ioutgt.Core

variable {α : Type}

def forkExtraPorts : List α → List (Nat × α)
  | [] => []
  | first :: extra => (0, first) :: extra.zipIdx.map fun e => (e.2 + 1, e.1)

def cntlidRange (ports index : Nat) : Checked String (Nat × Nat) := do
  Checked.require (ports ≠ 0) .arithOverflow
  let slice := cntlidMax / ports
  let below ← Checked.mul 16 index slice
  let min ← Checked.add 16 1 below
  let next ← Checked.add 16 index 1
  if next = ports then return (min, cntlidMax)
  else
    let max ← Checked.add 16 min slice
    let max ← Checked.sub max 1
    return (min, max)

/-- A port process: the port it serves and its registry. -/
structure Process (α : Type) where
  target : α
  registry : Registry

def startProcess (ports : Nat) (mine : Nat × α) : Checked String (Process α) := do
  let range ← cntlidRange ports mine.1
  let registry ← Registry.new range.1 range.2
  return ⟨mine.2, registry⟩

def applyFile (targets : List α) : Checked String (List (Process α)) :=
  if targets.length < 2 ^ 16 then (forkExtraPorts targets).mapM (startProcess targets.length)
  else Checked.raise "too many ports"

def step (ps : List (Process α)) (a : Nat × Registry.Call) : Checked String (List (Process α)) :=
  match ps[a.1]? with
  | none => .ok ps
  | some p => do
    let r ← p.registry.call a.2
    return ps.set a.1 { p with registry := r.2 }

def run (ps : List (Process α)) (as : List (Nat × Registry.Call)) :
    Checked String (List (Process α)) := as.foldlM step ps

end Ioutgt.Harness
