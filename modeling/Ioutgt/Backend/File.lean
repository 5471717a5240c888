import Ioutgt.Uring.FixedFile

/-!
# The file backend's descriptor

A `FileBackend` owns one descriptor. What it has at hand is the number; `file` records which open
file the kernel gave the number for when the backend opened it.
-/

namespace Ioutgt.Backend

open Ioutgt.Uring

structure FileBackend where
  fd : Nat
  file : Nat
  deriving DecidableEq, Repr

/-- The op target for this backend's descriptor: a fixed-file index when the reactor has one,
else the raw descriptor. -/
def FileBackend.backendFd (b : FileBackend) (r : Reactor) (fds : Nat → Option Nat)
    (accepts : Bool) : Reactor × BackendFd :=
  match r.fixedFileIndex fds accepts b.fd with
  | (r, some idx) => (r, .fixed idx)
  | (r, none) => (r, .raw b.fd)

end Ioutgt.Backend
