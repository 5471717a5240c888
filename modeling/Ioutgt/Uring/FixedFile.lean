import Mathlib.Logic.Function.Basic

/-!
# The fixed-file table of a queue thread's reactor

Each queue thread owns a ring with a fixed-file table. A descriptor is registered into it on first
use and the index is remembered under the descriptor's number, failures included; nothing
unregisters an index.
-/

namespace Ioutgt.Uring

/-- The reactor's fixed-file state: the free slots (top of the stack first), the memo of
`fixed_file_index`, and the kernel's table. Open files are identified by a number of their own. -/
structure Reactor where
  freeFiles : List Nat
  fileIndexCache : List (Nat × Option Nat)
  table : Nat → Option Nat

namespace Reactor

def maxRegFiles : Nat := 64

def new (filesSupported : Bool) : Reactor where
  freeFiles := if filesSupported then List.range maxRegFiles else []
  fileIndexCache := []
  table := fun _ => none

/-- Claim a fixed-file slot for `fd`. `fds` is the kernel's descriptor table and `accepts` its
answer to the registration. -/
def registerFile (r : Reactor) (fds : Nat → Option Nat) (accepts : Bool) (fd : Nat) :
    Reactor × Option Nat :=
  match r.freeFiles with
  | [] => (r, none)
  | idx :: rest =>
    if accepts then
      ({ r with freeFiles := rest, table := Function.update r.table idx (fds fd) }, some idx)
    else (r, none)

def cached (r : Reactor) (fd : Nat) : Option (Option Nat) :=
  (r.fileIndexCache.find? (·.1 == fd)).map (·.2)

/-- Fixed-file index for `fd`, lazily registering it on first use and remembering the result. -/
def fixedFileIndex (r : Reactor) (fds : Nat → Option Nat) (accepts : Bool) (fd : Nat) :
    Reactor × Option Nat :=
  match r.cached fd with
  | some answer => (r, answer)
  | none =>
    let (r, answer) := r.registerFile fds accepts fd
    ({ r with fileIndexCache := r.fileIndexCache ++ [(fd, answer)] }, answer)

end Reactor

/-- The target of a disk op: a descriptor, or an index of the thread's fixed-file table. -/
inductive BackendFd where
  | raw (fd : Nat)
  | fixed (idx : Nat)
  deriving DecidableEq, Repr

def BackendFd.addressed (b : BackendFd) (fds : Nat → Option Nat) (r : Reactor) : Option Nat :=
  match b with
  | .raw fd => fds fd
  | .fixed idx => r.table idx

end Ioutgt.Uring
