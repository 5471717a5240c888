import Mathlib.Data.List.Basic

/-!
# Subsystems and the namespace table

The namespace table is replaced as a whole on every change and versioned by a generation counter.
Queue threads keep a snapshot of it and revalidate it with one generation load per command.
-/

namespace Ioutgt.Core

structure Namespace (B : Type) where
  nsid : Nat
  backend : B
  deriving DecidableEq, Repr

abbrev NsMap (B : Type) : Type := List (Namespace B)

def NsMap.get {B : Type} (t : NsMap B) (nsid : Nat) : Option (Namespace B) :=
  t.find? (·.nsid == nsid)

structure Subsystem (B : Type) where
  namespaces : NsMap B
  generation : Nat

namespace Subsystem

variable {B : Type}

def new (namespaces : NsMap B) : Subsystem B := { namespaces, generation := 1 }

def addNamespace (s : Subsystem B) (ns : Namespace B) : Except String (Subsystem B) :=
  if (s.namespaces.get ns.nsid).isSome then .error s!"nsid {ns.nsid} already exists"
  else .ok { namespaces := ns :: s.namespaces, generation := s.generation + 1 }

/-- Remove a namespace; in-flight IO holding the old snapshot completes against the still-alive
backend. -/
def removeNamespace (s : Subsystem B) (nsid : Nat) : Except String (Subsystem B) :=
  if (s.namespaces.get nsid).isNone then .error s!"nsid {nsid} not found"
  else .ok { namespaces := s.namespaces.filter (·.nsid != nsid), generation := s.generation + 1 }

end Subsystem

/-- A queue's generation-validated cache of a subsystem's table. -/
structure NsCache (B : Type) where
  generation : Nat := 0
  map : Option (NsMap B) := none

/-- The refresh of `NsCache::get`: `generation` is what the atomic load returned, `snapshot` the
table at the moment it is read (the control plane may change it in between). -/
def NsCache.get {B : Type} (c : NsCache B) (generation : Nat) (snapshot : NsMap B) :
    NsCache B × NsMap B :=
  match c.map with
  | some map =>
    if c.generation ≠ generation then ({ generation, map := some snapshot }, snapshot)
    else (c, map)
  | none => ({ generation, map := some snapshot }, snapshot)

/-- What the cache hands out is the snapshot or what it held before, and it holds on to it. -/
theorem NsCache.get_cases {B : Type} (c : NsCache B) (generation : Nat) (snapshot : NsMap B) :
    (c.get generation snapshot).2 = snapshot ∧
        (c.get generation snapshot).1.map = some snapshot ∨
      c.map = some (c.get generation snapshot).2 ∧ (c.get generation snapshot).1 = c := by
  unfold NsCache.get
  cases hm : c.map with
  | none => exact .inl ⟨rfl, rfl⟩
  | some map =>
    dsimp only
    split
    · exact .inl ⟨rfl, rfl⟩
    · exact .inr ⟨rfl, rfl⟩

end Ioutgt.Core
