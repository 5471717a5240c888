import Mathlib.Data.List.Sort
import Mathlib.Data.List.MinMax
import Ioutgt.Lib.Checked
import Ioutgt.Cpus.CpuSet

/-!
# Spreading CPUs over IO threads

`spread_cpus`: the possible CPUs in as many pinning groups as there are IO threads. Seats are
apportioned to the NUMA nodes by largest remainder, each node is then filled in locality order
against even quotas; with fewer groups than nodes whole nodes are packed instead. A `usize` product
that overflows panics.
-/

namespace Ioutgt.Cpus

open Lib

/-- CPU topology snapshot. Node masks are indexed by node id, sibling and cluster masks by CPU id. -/
structure CpuTopology where
  possible : CpuSet
  present : CpuSet
  online : CpuSet
  nodeToCpus : List CpuSet
  sibling : List CpuSet
  cluster : List CpuSet
  deriving DecidableEq

variable {ε : Type}

/-! ## Locality order -/

structure Filling where
  order : List Nat
  visited : CpuSet

def Filling.push (f : Filling) (member : Nat) : Filling :=
  ⟨f.order ++ [member], f.visited.set member⟩

/-- What is left of a mask in `scope`, or `cpu` alone when nothing is. -/
def within (mask scope visited : CpuSet) (cpu : Nat) : CpuSet :=
  let rest := (mask.and scope).andnot visited
  if rest.isEmpty then rest.set cpu else rest

def atomOf (topo : CpuTopology) (cluster visited : CpuSet) (c : Nat) : CpuSet :=
  within (topo.sibling.getD c .new) cluster visited c

/-- The cluster of `cpu` within its node; its sibling set when it has no cluster mask. -/
def clusterOf (topo : CpuTopology) (node visited : CpuSet) (cpu : Nat) : CpuSet :=
  let cluster := topo.cluster.getD cpu .new
  within (if cluster.isEmpty then topo.sibling.getD cpu .new else cluster) node visited cpu

def takeAtom (topo : CpuTopology) (cluster : CpuSet) (f : Filling) (c : Nat) : Filling :=
  if f.visited.test c then f
  else (atomOf topo cluster f.visited c).iter.foldl .push f

def takeCluster (topo : CpuTopology) (node : CpuSet) (f : Filling) (cpu : Nat) : Filling :=
  if f.visited.test cpu then f
  else
    let cluster := clusterOf topo node f.visited cpu
    cluster.iter.foldl (takeAtom topo cluster) f

def fillOrder (node : CpuSet) (topo : CpuTopology) : List Nat :=
  (node.iter.foldl (takeCluster topo node) ⟨[], .new⟩).order

/-! ## One node -/

/-- `n` split into `k` near-even parts, the `n % k` remainder going to the leading parts. -/
def splitEven (n k : Nat) : List Nat :=
  (List.range k).map fun i => n / k + if i < n % k then 1 else 0

/-- The groups of a node and how many CPUs each has. -/
structure Packing where
  groups : List CpuSet
  fill : List Nat

def Packing.place (p : Packing) (j cpu : Nat) : Packing :=
  ⟨p.groups.modify j (·.set cpu), p.fill.modify j (· + 1)⟩

/-- `while fill[g] == quota[g] { g += 1 }`; `none` when the index runs out. -/
def nextOpen (fill quota : List Nat) (g : Nat) : Option Nat :=
  (List.range' g (fill.length - g)).find? fun j => fill.getD j 0 != quota.getD j 0

def placePresent (quota : List Nat) (st : Packing × Nat) (cpu : Nat) : Checked ε (Packing × Nat) :=
  match nextOpen st.1.fill quota st.2 with
  | some g => .ok (st.1.place g cpu, g)
  | none => Checked.abort .indexOutOfBounds

def placeAbsent (topo : CpuTopology) (seats : Nat) (quota : List Nat) (p : Packing) (cpu : Nat) :
    Checked ε Packing :=
  let sib := topo.sibling.getD cpu .new
  let room := (List.range seats).filter fun j => p.fill.getD j 0 < quota.getD j 0
  match (room.find? fun j => (p.groups.getD j .new).intersects sib).or room.head? with
  | some j => .ok (p.place j cpu)
  | none => Checked.abort .assertFailed

def packNode (node : CpuSet) (seats : Nat) (topo : CpuTopology) : Checked ε (List CpuSet) :=
  if seats = 0 then .ok []
  else do
    let order := fillOrder node topo
    let present := order.filter topo.present.test
    let absent := order.filter fun c => !topo.present.test c
    let st ← present.foldlM (placePresent (splitEven present.length seats))
      (⟨List.replicate seats .new, List.replicate seats 0⟩, 0)
    let p ← absent.foldlM (placeAbsent topo seats (splitEven order.length seats)) st.1
    return p.groups

/-! ## Seats and nodes -/

/-- Largest remainder first, ties to the lower index. -/
def SeatBefore (total : Nat) (products : List Nat) (i j : Nat) : Prop :=
  products.getD j 0 % total < products.getD i 0 % total ∨
    products.getD i 0 % total = products.getD j 0 % total ∧ i ≤ j

instance (total : Nat) (products : List Nat) : DecidableRel (SeatBefore total products) :=
  fun _ _ => inferInstanceAs (Decidable (_ ∨ _))

def seatOrder (total : Nat) (products : List Nat) : List Nat :=
  (List.range products.length).insertionSort (SeatBefore total products)

/-- Largest-remainder apportionment of `seats` to `weights.len()` nodes with a floor of one seat
each. -/
def apportion (seats : Nat) (weights : List Nat) : Checked ε (List Nat) := do
  let spare ← Checked.sub seats weights.length
  let total := weights.sum
  -- `spare * w`, in 64 bits
  let products ← weights.mapM (Checked.mul 64 spare)
  -- the quotients and remainders below divide by it
  Checked.require (weights = [] ∨ total ≠ 0) .arithOverflow
  let out := products.map fun p => 1 + p / total
  let left ← Checked.sub seats out.sum
  return ((seatOrder total products).take left).foldl (fun out i => out.modify i (· + 1)) out

def packWhole (nodes : List CpuSet) (weights : List Nat) (ngroups : Nat)
    (st : List CpuSet × List Nat) (i : Nat) : Checked ε (List CpuSet × List Nat) :=
  match (List.range ngroups).argmin fun g => st.2.getD g 0 with
  | some g => .ok (st.1.modify g (·.or (nodes.getD i .new)), st.2.modify g (· + weights.getD i 0))
  -- `min_by_key(..).unwrap()`
  | none => Checked.abort .assertFailed

/-- Fewer groups than nodes: keep nodes whole and pack them heaviest-first into the currently
lightest group. -/
def packWholeNodes (ngroups : Nat) (nodes : List CpuSet) (weights : List Nat) :
    Checked ε (List CpuSet) := do
  let order := (List.range nodes.length).insertionSort fun a b =>
    weights.getD b 0 < weights.getD a 0 ∨ weights.getD a 0 = weights.getD b 0 ∧ a ≤ b
  let st ← order.foldlM (packWhole nodes weights ngroups)
    (List.replicate ngroups .new, List.replicate ngroups 0)
  return st.1

namespace CpuTopology

def nodes (topo : CpuTopology) : List CpuSet :=
  (topo.nodeToCpus.map (·.and topo.possible)).filter fun n => !n.isEmpty

/-- Present CPUs per node; with none present at all, possible CPUs. -/
def weights (topo : CpuTopology) : List Nat :=
  let weights := topo.nodes.map fun n => (n.and topo.present).weight
  if weights.all (· == 0) then topo.nodes.map CpuSet.weight else weights

end CpuTopology

def spreadCpus (ngroups : Nat) (topo : CpuTopology) : Checked ε (List CpuSet) :=
  if ngroups = 0 then .ok []
  else if topo.nodes = [] then .ok (List.replicate ngroups .new)
  else if ngroups < topo.nodes.length then packWholeNodes ngroups topo.nodes topo.weights
  else do
    let seats ← apportion ngroups topo.weights
    let blocks ← (topo.nodes.zip seats).mapM fun p => packNode p.1 p.2 topo
    return blocks.flatten

/-- The CPU each IO thread is pinned to: the first online one of its group. -/
def ioThreadCpus (ioThreads : Nat) (topo : CpuTopology) : Checked ε (List (Option Nat)) := do
  let groups ← spreadCpus ioThreads topo
  return (List.range ioThreads).map fun i => (groups[i]?.map (·.and topo.online)).bind CpuSet.first

end Ioutgt.Cpus
