import Mathlib.Data.List.Nodup
import Ioutgt.Core.Registry
import Ioutgt.Core.Subsystem

/-!
# Subsystem identities and the port configuration

The immutable half of a subsystem (its names and its access list), and the port that serves a set
of them. The versioned half, the namespace table, is `Subsystem`.
-/

namespace Ioutgt.Core

inductive TransportType where
  | tcp
  | rdma
  deriving DecidableEq, Repr

structure SubsystemId where
  nqn : Nqn
  serial : List UInt8
  allowAnyHost : Bool
  allowedHosts : List Nqn
  deriving DecidableEq, Repr

def SubsystemId.admits (s : SubsystemId) (hostnqn : Nqn) : Bool :=
  s.allowAnyHost || s.allowedHosts.any (· == hostnqn)

structure PortConfig where
  traddr : List UInt8
  trsvcid : List UInt8
  trtype : TransportType
  maxQid : Nat
  ioQueueSize : Nat
  subsystems : List SubsystemId
  /-- A map keyed by NQN holds each key once. -/
  nodup : (subsystems.map (·.nqn)).Nodup
  /-- A discovery log of one header and one entry each, 1024 bytes long, can be allocated. -/
  fits : 1024 * (subsystems.length + 1) < 2 ^ 63

theorem PortConfig.fits_nil : 1024 * (([] : List SubsystemId).length + 1) < 2 ^ 63 := by decide

def PortConfig.subsystem (p : PortConfig) (nqn : Nqn) : Option SubsystemId :=
  p.subsystems.find? (·.nqn == nqn)

theorem PortConfig.subsystem_nqn {p : PortConfig} {nqn : Nqn} {s : SubsystemId}
    (h : p.subsystem nqn = some s) : s.nqn = nqn := by
  simpa using List.find?_some h

end Ioutgt.Core
