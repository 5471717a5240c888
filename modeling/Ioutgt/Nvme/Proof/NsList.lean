import Ioutgt.Control.Proof.Namespaces
import Ioutgt.Lib.Paging
import Ioutgt.Nvme.Admin

/-!
# Enumerating the active namespaces

A host asks for the active namespace list after 0, then after the last id it got, until a list is
not full.

* `readNsList_activeNsList`: what the host reads out of a list page.
* `enumerate_eq_keys`: the whole enumeration.
-/

namespace Ioutgt.Nvme

open Lib Ioutgt.Core

/-! ## The host -/

def readNsList : Nat → List UInt8 → List Nat
  | 0, _ => []
  | n + 1, bytes =>
    let nsid := le (bytes.take 4)
    if nsid = 0 then [] else nsid :: readNsList n (bytes.drop 4)

def identifyNsList (start : Nat) : Sqe :=
  { Sqe.zeroed with opcode := AdminOpcode.identify, nsid := start, cdw10 := Cns.activeNsList }

section

variable {B : Type} [Backend B]

def nsListReply (port : PortConfig) (tables : Admin.Tables B) (admin : AdminState) (start : Nat) :
    Option Outcome :=
  (Admin.execute port tables admin (identifyNsList start)).1

def enumerate (port : PortConfig) (tables : Admin.Tables B) (admin : AdminState) (n : Nat) :
    Option (List Nat) :=
  collect (fun start => match nsListReply port tables admin start with
    | some out => readNsList Admin.nsListMax (out.data.take out.dataLen)
    | none => []) Admin.nsListMax n 0

end

/-! ## One page -/

theorem le_replicate_zero (k : Nat) : le (List.replicate k 0) = 0 := by
  induction k with
  | zero => rfl
  | succ k ih => simp [List.replicate_succ, le, ih]

theorem readNsList_append {n : Nat} {ids : List Nat} (m : Nat) (hn : ids.length ≤ n)
    (hpos : ∀ id ∈ ids, 0 < id) (hlt : ∀ id ∈ ids, id < 2 ^ 32) :
    readNsList n (ids.flatMap (toLe 4) ++ List.replicate m 0) = ids := by
  induction ids generalizing n with
  | nil =>
    cases n with
    | zero => rfl
    | succ n => simp [readNsList, List.take_replicate, le_replicate_zero]
  | cons id ids ih =>
    cases n with
    | zero => simp at hn
    | succ n =>
      have hid : le (toLe 4 id) = id := by
        rw [le_toLe]
        exact Nat.mod_eq_of_lt (hlt id (by simp))
      have hne : id ≠ 0 := Nat.pos_iff_ne_zero.1 (hpos id (by simp))
      have htake : (toLe 4 id ++ (ids.flatMap (toLe 4) ++ List.replicate m 0)).take 4 =
          toLe 4 id := List.take_left' (toLe_length ..)
      have hdrop : (toLe 4 id ++ (ids.flatMap (toLe 4) ++ List.replicate m 0)).drop 4 =
          ids.flatMap (toLe 4) ++ List.replicate m 0 := List.drop_left' (toLe_length ..)
      rw [List.flatMap_cons, List.append_assoc, readNsList, htake, hdrop, hid,
        if_neg hne, ih (by simpa using hn) (fun i hi => hpos i (by simp [hi]))
        (fun i hi => hlt i (by simp [hi]))]

theorem flatMap_toLe_length (k : Nat) (ids : List Nat) :
    (ids.flatMap (toLe k)).length = k * ids.length := by
  simp [List.length_flatMap, Nat.mul_comm]

section

variable {B : Type}

theorem keys_length (t : NsMap B) : t.keys.length = t.length := by
  rw [NsMap.keys, List.length_insertionSort, List.length_map]

theorem keys_pairwise_lt {t : NsMap B} (h : Control.Valid t) : t.keys.Pairwise (· < ·) := by
  have hle : t.keys.Pairwise (· ≤ ·) := List.pairwise_insertionSort ..
  have hnd : t.keys.Nodup := (List.perm_insertionSort ..).nodup_iff.2 h.nodup
  exact (hle.and hnd).imp fun hab => Nat.lt_of_le_of_ne hab.1 hab.2

theorem mem_keys {t : NsMap B} {nsid : Nat} : nsid ∈ t.keys ↔ (t.get nsid).isSome := by
  rw [Control.get_isSome_iff]
  exact (List.perm_insertionSort ..).mem_iff

theorem keys_bounds {t : NsMap B} (h : Control.Valid t) {nsid : Nat} (hm : nsid ∈ t.keys) :
    0 < nsid ∧ nsid < 2 ^ 32 := by
  have hm' : nsid ∈ t.map (·.nsid) := (List.perm_insertionSort ..).mem_iff.1 hm
  obtain ⟨ns, hns, rfl⟩ := List.mem_map.1 hm'
  have hpos := h.pos ns hns
  have hlt := h.lt ns hns
  omega

theorem activeNsList_eq (t : NsMap (Volume B)) (start : Nat) :
    Admin.activeNsList t start =
      (page Admin.nsListMax t.keys start).flatMap (toLe 4) ++
        List.replicate (4096 - 4 * (page Admin.nsListMax t.keys start).length) 0 := by
  have hlen : (page Admin.nsListMax t.keys start).length ≤ Admin.nsListMax :=
    List.length_take_le ..
  have h1024 : Admin.nsListMax = 1024 := rfl
  rw [Admin.activeNsList, fit]
  rw [show (t.keys.filter (start < ·)).take Admin.nsListMax = page Admin.nsListMax t.keys start
    from rfl, flatMap_toLe_length, List.take_of_length_le]
  rw [flatMap_toLe_length]
  omega

theorem readNsList_activeNsList {t : NsMap (Volume B)} (h : Control.Valid t) (start : Nat) :
    readNsList Admin.nsListMax (Admin.activeNsList t start) =
      page Admin.nsListMax t.keys start := by
  have hmem : ∀ id ∈ page Admin.nsListMax t.keys start, id ∈ t.keys := fun id hid =>
    (List.mem_filter.1 (List.mem_of_mem_take hid)).1
  rw [activeNsList_eq]
  exact readNsList_append _ (List.length_take_le ..) (fun id hid => (keys_bounds h (hmem id hid)).1)
    fun id hid => (keys_bounds h (hmem id hid)).2

theorem activeNsList_length (t : NsMap (Volume B)) (start : Nat) :
    (Admin.activeNsList t start).length = 4096 := fit_length ..

theorem fillSlot_activeNsList (t : NsMap (Volume B)) (start : Nat) :
    (Admin.fillSlot (Admin.activeNsList t start)).dataLen = 4096 ∧
      (Admin.fillSlot (Admin.activeNsList t start)).data = Admin.activeNsList t start := by
  have hlen := activeNsList_length t start
  constructor
  · exact (congrArg (Nat.min · adminDataMax) hlen).trans rfl
  · exact List.take_of_length_le (by rw [hlen]; decide)

/-! ## The enumeration -/

variable [Backend B]

theorem nsListReply_eq (port : PortConfig) (tables : Admin.Tables B) {admin : AdminState}
    {subsys : SubsystemId} (hsub : admin.subsys = some subsys) (start : Nat) :
    nsListReply port tables admin start =
      some (Admin.fillSlot (Admin.activeNsList (tables subsys.nqn).namespaces start)) := by
  unfold nsListReply Admin.execute
  rw [if_pos (show (identifyNsList start).opcode = AdminOpcode.identify from rfl)]
  have hwhich : (identifyNsList start).cdw10 &&& 0xFF = Cns.activeNsList :=
    show Cns.activeNsList &&& 0xFF = Cns.activeNsList by decide
  unfold Admin.identify
  dsimp only
  rw [hwhich, if_neg (by decide), if_neg (by decide), if_pos rfl, hsub]
  rfl

theorem enumerate_eq_keys (port : PortConfig) (tables : Admin.Tables B) {admin : AdminState}
    {subsys : SubsystemId} (hsub : admin.subsys = some subsys)
    (hv : Control.Valid (tables subsys.nqn).namespaces) {n : Nat}
    (hn : (tables subsys.nqn).namespaces.length < n * Admin.nsListMax) :
    enumerate port tables admin n = some (tables subsys.nqn).namespaces.keys := by
  let t := (tables subsys.nqn).namespaces
  have hfetch : (fun start => match nsListReply port tables admin start with
      | some out => readNsList Admin.nsListMax (out.data.take out.dataLen)
      | none => []) = page Admin.nsListMax t.keys := by
    funext start
    obtain ⟨hlen, hdata⟩ := fillSlot_activeNsList t start
    rw [nsListReply_eq port tables hsub]
    dsimp only
    rw [hlen, hdata, List.take_of_length_le (activeNsList_length ..).le,
      readNsList_activeNsList hv]
  have hall : t.keys.filter (0 < ·) = t.keys := by
    rw [List.filter_eq_self]
    exact fun id hid => by simpa using (keys_bounds hv hid).1
  have hcount : (t.keys.filter (0 < ·)).length < n * Admin.nsListMax := by
    rw [hall, keys_length]
    exact hn
  rw [enumerate, hfetch, collect_eq_filter (keys_pairwise_lt hv) (by decide) hcount, hall]

/-- However a table came about, a host that enumerates it gets every active id once, in increasing
order, and stops; every list it gets is ids of the table and then zeroes. -/
theorem enumerate_active_namespaces (nss : List (Control.NamespaceConfig (Volume B)))
    (hcfg : Control.validate [] nss = .ok ()) (rs : List (Control.Request (Volume B)))
    (s : Subsystem (Volume B)) (hs : runFrom Control.step (Control.configured nss) rs = some s)
    (port : PortConfig) (tables : Admin.Tables B) (admin : AdminState) (subsys : SubsystemId)
    (hsub : admin.subsys = some subsys) (htab : tables subsys.nqn = s) :
    (∀ n, s.namespaces.length < n * 1024 →
      enumerate port tables admin n = some s.namespaces.keys) ∧
    s.namespaces.keys.Pairwise (· < ·) ∧
    (∀ nsid, nsid ∈ s.namespaces.keys ↔ (s.namespaces.get nsid).isSome) ∧
    ∀ start, ∃ out ids, nsListReply port tables admin start = some out ∧
      out.status = Status.success ∧ out.dataLen = 4096 ∧
      ids = (s.namespaces.keys.filter (start < ·)).take 1024 ∧
      out.data = ids.flatMap (toLe 4) ++ List.replicate (4096 - 4 * ids.length) 0 := by
  subst htab
  have hv := Control.valid_run hcfg hs
  refine ⟨fun n hn => enumerate_eq_keys port tables hsub hv hn, keys_pairwise_lt hv,
    fun nsid => mem_keys, fun start => ?_⟩
  obtain ⟨hlen, hdata⟩ := fillSlot_activeNsList (tables subsys.nqn).namespaces start
  exact ⟨_, _, nsListReply_eq port tables hsub start, rfl, hlen, rfl,
    hdata.trans (activeNsList_eq _ start)⟩

end

theorem enumerate_active_namespaces_three :
    let g : Volume Geometry :=
      ⟨{ blockShift := 9, nrBlocks := 8, blockShift_le := (by decide), bytes_lt := (by decide) }, []⟩
    let s : Subsystem (Volume Geometry) :=
      { namespaces := [⟨5, g⟩, ⟨7, g⟩, ⟨2, g⟩], generation := 3 }
    let subsys : SubsystemId :=
      { nqn := [0x6E], serial := [], allowAnyHost := true, allowedHosts := [] }
    let port : PortConfig :=
      { traddr := [], trsvcid := [], trtype := .tcp, maxQid := 1, ioQueueSize := 128,
        subsystems := [subsys], nodup := List.nodup_singleton _, fits := by simp }
    enumerate port (fun _ => s) { AdminState.new 0 with subsys := some subsys } 1 =
      some [2, 5, 7] := by
  intro g s subsys port
  have h := (enumerate_active_namespaces [⟨7, g⟩, ⟨2, g⟩, ⟨9, g⟩] rfl
    [.addNamespace ⟨5, g⟩, .removeNamespace 9] s rfl port (fun _ => s)
    { AdminState.new 0 with subsys := some subsys } subsys rfl rfl).1 1 (by decide)
  exact h.trans (by decide)

end Ioutgt.Nvme
