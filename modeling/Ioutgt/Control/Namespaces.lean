import Ioutgt.Core.Backend
import Ioutgt.Lib.Run

/-!
# Namespaces under the control plane

The structural validation of a configured namespace list, and the control requests that change a
subsystem's table afterwards.
-/

namespace Ioutgt.Control

open Ioutgt.Core

variable {B : Type}

structure NamespaceConfig (B : Type) where
  nsid : UInt32
  backend : B

def NamespaceConfig.toNamespace (c : NamespaceConfig B) : Namespace B :=
  { nsid := c.nsid.toNat, backend := c.backend }

def reserved (nsid : UInt32) : Bool := nsid == 0 || nsid == 0xFFFFFFFF

def validate (seen : List UInt32) : List (NamespaceConfig B) → Except String Unit
  | [] => return
  | ns :: rest =>
    if reserved ns.nsid then .error s!"nsid {ns.nsid} is reserved"
    else if seen.contains ns.nsid then .error s!"duplicate nsid {ns.nsid}"
    else validate (ns.nsid :: seen) rest

def configured (nss : List (NamespaceConfig B)) : Subsystem B :=
  .new (nss.map NamespaceConfig.toNamespace)

inductive Request (B : Type) where
  | addNamespace (ns : NamespaceConfig B)
  | removeNamespace (nsid : UInt32)

def handle (s : Subsystem B) : Request B → Except String (Subsystem B)
  | .addNamespace ns =>
    if reserved ns.nsid then .error "nsid reserved" else s.addNamespace ns.toNamespace
  | .removeNamespace nsid => s.removeNamespace nsid.toNat

def step (s : Subsystem B) (r : Request B) : Option (Subsystem B) :=
  match handle s r with
  | .ok s' => some s'
  | .error _ => some s

end Ioutgt.Control
