import Mathlib.Algebra.Order.BigOperators.Group.List
import Mathlib.Algebra.Order.Group.Nat
import Ioutgt.Nvme.Execute

/-!
# The discovery log

* `execute_discovery`: a discovery log page is a window of the log, cut to the admin buffer.
* `readWindows_eq`: reading the log in consecutive windows.
* `logFields_buildDiscoveryLog`: which subsystems a host reads out of the log.
-/

namespace Ioutgt.Nvme

open Lib Ioutgt.Core

variable {admin : AdminState}

/-! ## The log -/

@[simp] theorem discoveryLogHeader_length (n : Nat) :
    (Admin.discoveryLogHeader n).length = 1024 := by
  unfold Admin.discoveryLogHeader
  simp only [List.length_append, toLe_length, zeros_length]

@[simp] theorem discoveryLogEntryHead_length (port : PortConfig) (i : Nat) :
    (Admin.discoveryLogEntryHead port i).length = 256 := by
  unfold Admin.discoveryLogEntryHead
  simp only [List.length_append, toLe_length, zeros_length, asciiPad_length]

@[simp] theorem discoveryLogEntry_length (port : PortConfig) (i : Nat) (nqn : Nqn) :
    (Admin.discoveryLogEntry port i nqn).length = 1024 := by
  unfold Admin.discoveryLogEntry
  simp only [List.length_append, discoveryLogEntryHead_length, zeros_length, asciiPad_length,
    nulTerminate_length]

theorem buildDiscoveryLog_length (port : PortConfig) :
    (Admin.buildDiscoveryLog port).length = 1024 * (port.subsystems.length + 1) := by
  unfold Admin.buildDiscoveryLog
  simp only [List.length_append, discoveryLogHeader_length, List.length_flatMap,
    discoveryLogEntry_length, List.map_const', List.length_zipIdx, List.sum_replicate_nat]
  omega

theorem buildDiscoveryLog_length_lt (port : PortConfig) :
    (Admin.buildDiscoveryLog port).length < 2 ^ 63 :=
  buildDiscoveryLog_length port ▸ port.fits

/-! ## One window -/

theorem slice_window {log : List UInt8} (hlog : log.length < 2 ^ 63) (offset len : Nat) :
    slice log (Nat.min offset (Nat.min (Nat.min (offset + len) (2 ^ 64 - 1)) log.length))
      (Nat.min (Nat.min (offset + len) (2 ^ 64 - 1)) log.length -
        Nat.min offset (Nat.min (Nat.min (offset + len) (2 ^ 64 - 1)) log.length)) =
      slice log offset len := by
  have hstop : Nat.min (Nat.min (offset + len) (2 ^ 64 - 1)) log.length =
      min (offset + len) log.length := by
    show min (min (offset + len) (2 ^ 64 - 1)) log.length = min (offset + len) log.length
    omega
  rw [hstop]
  obtain hle | hlt := Nat.le_total log.length offset
  · -- past the end there is nothing
    have hnil : ∀ n, slice log offset n = [] := fun n => by
      simp [slice, List.drop_eq_nil_of_le hle]
    rw [hnil, show min (offset + len) log.length = log.length by omega,
      show Nat.min offset log.length = log.length from Nat.min_eq_right hle, Nat.sub_self]
    simp [slice]
  · rw [show Nat.min offset (min (offset + len) log.length) = offset from
      Nat.min_eq_left (by omega)]
    unfold slice
    rw [List.take_eq_take_iff, List.length_drop]
    omega

structure AsksDiscovery (sqe : Sqe) : Prop where
  opcode : sqe.opcode = AdminOpcode.getLogPage
  lid : sqe.cdw10 &&& 0xFF = LogPage.discovery

variable {B : Type} [Backend B]

theorem execute_discovery (port : PortConfig) (tables : Admin.Tables B)
    (hd : admin.discovery = true) {sqe : Sqe} (h : AsksDiscovery sqe) :
    Admin.execute port tables admin sqe =
      (some (Admin.fillSlot (slice (Admin.buildDiscoveryLog port) (Admin.logOffset sqe)
        (Admin.logLen sqe))), admin) := by
  unfold Admin.execute
  rw [h.opcode, if_neg (by decide), if_neg (by decide), if_neg (by decide), if_pos rfl]
  unfold Admin.getLogPage
  dsimp only
  rw [h.lid, hd, if_pos ⟨rfl, rfl⟩, slice_window (buildDiscoveryLog_length_lt port)]

theorem fillSlot_data (data : List UInt8) :
    (Admin.fillSlot data).data = data.take adminDataMax := by
  show data.take (min data.length adminDataMax) = _
  rw [Nat.min_comm, ← List.take_eq_take_min]

theorem fillSlot_data_eq_iff (data : List UInt8) :
    (Admin.fillSlot data).data = data ↔ data.length ≤ adminDataMax := by
  rw [fillSlot_data, List.take_eq_self_iff]

/-! ## Every windowing -/

def getDiscoveryLog (offset len : Nat) : Sqe :=
  { Sqe.zeroed with
    opcode := AdminOpcode.getLogPage
    cdw10 := ((len / 4 - 1) % 2 ^ 16) <<< 16 ||| LogPage.discovery
    cdw11 := (len / 4 - 1) / 2 ^ 16
    cdw12 := offset % 2 ^ 32
    cdw13 := offset / 2 ^ 32 }

theorem getDiscoveryLog_cdw10 (offset len : Nat) :
    (getDiscoveryLog offset len).cdw10 = (len / 4 - 1) % 2 ^ 16 * 2 ^ 16 + LogPage.discovery := by
  show ((len / 4 - 1) % 2 ^ 16) <<< 16 ||| LogPage.discovery = _
  rw [← Nat.shiftLeft_add_eq_or_of_lt (by decide), Nat.shiftLeft_eq]

theorem getDiscoveryLog_asks (offset len : Nat) : AsksDiscovery (getDiscoveryLog offset len) := by
  refine ⟨rfl, ?_⟩
  have hmask : ∀ n : Nat, n &&& 0xFF = n % 2 ^ 8 := fun n => Nat.and_two_pow_sub_one_eq_mod n 8
  rw [hmask, getDiscoveryLog_cdw10]
  have : LogPage.discovery = 0x70 := rfl
  omega

theorem getDiscoveryLog_len {offset len : Nat} (h4 : len % 4 = 0) (hpos : 0 < len)
    (hmax : len ≤ mdtsBytes) : Admin.logLen (getDiscoveryLog offset len) = len := by
  have hmdts : mdtsBytes = 131072 := rfl
  have hmask : ∀ n : Nat, n &&& 0xFFFF = n % 2 ^ 16 := fun n =>
    Nat.and_two_pow_sub_one_eq_mod n 16
  have hlow : (getDiscoveryLog offset len).cdw10 >>> 16 = (len / 4 - 1) % 2 ^ 16 := by
    have : LogPage.discovery = 0x70 := rfl
    rw [getDiscoveryLog_cdw10, Nat.shiftRight_eq_div_pow]
    omega
  have hhigh : (getDiscoveryLog offset len).cdw11 &&& 0xFFFF = (len / 4 - 1) / 2 ^ 16 := by
    rw [hmask]
    show (len / 4 - 1) / 2 ^ 16 % 2 ^ 16 = _
    omega
  rw [Admin.logLen, hlow, hhigh, ← Nat.shiftLeft_add_eq_or_of_lt (by omega), Nat.shiftLeft_eq]
  omega

theorem getDiscoveryLog_offset (offset len : Nat) :
    Admin.logOffset (getDiscoveryLog offset len) = offset := by
  show (offset / 2 ^ 32) <<< 32 ||| offset % 2 ^ 32 = offset
  rw [← Nat.shiftLeft_add_eq_or_of_lt (by omega), Nat.shiftLeft_eq]
  omega

/-- What the host has after reading `n` consecutive windows of `w` bytes. -/
def readWindows (port : PortConfig) (tables : Admin.Tables B) (admin : AdminState) (w n : Nat) :
    List UInt8 :=
  (List.range n).flatMap fun i =>
    match (Admin.execute port tables admin (getDiscoveryLog (i * w) w)).1 with
    | some out => out.data
    | none => []

theorem readWindows_eq (port : PortConfig) (tables : Admin.Tables B) (hd : admin.discovery = true)
    {w n : Nat} (h4 : w % 4 = 0) (hpos : 0 < w) (hmax : w ≤ mdtsBytes) :
    readWindows port tables admin w n = (List.range n).flatMap fun i =>
      (slice (Admin.buildDiscoveryLog port) (i * w) w).take adminDataMax := by
  unfold readWindows
  refine List.flatMap_congr fun i _ => ?_
  rw [execute_discovery port tables hd (getDiscoveryLog_asks ..), getDiscoveryLog_offset,
    getDiscoveryLog_len h4 hpos hmax]
  exact fillSlot_data _

omit [Backend B] in
theorem flatMap_take_slice_eq_iff (log : List UInt8) {w n : Nat} (hpos : 0 < w)
    (hn : log.length ≤ n * w) :
    ((List.range n).flatMap fun i => (slice log (i * w) w).take adminDataMax) = log ↔
      min w log.length ≤ adminDataMax := by
  have hwhole : ((List.range n).flatMap fun i => slice log (i * w) w) = log := by
    rw [flatMap_slice, List.take_of_length_le hn]
  constructor
  · intro h
    by_contra hbig
    have hlim : adminDataMax = 8192 := rfl
    -- the first window alone is longer than what arrives of it
    obtain ⟨m, rfl⟩ : ∃ m, n = m + 1 := ⟨n - 1, by
      have : n ≠ 0 := fun h0 => by simp [h0] at hn; simp [hn] at hbig
      omega⟩
    have hcut : ((List.range (m + 1)).flatMap fun i =>
        (slice log (i * w) w).take adminDataMax).length <
        ((List.range (m + 1)).flatMap fun i => slice log (i * w) w).length := by
      rw [List.range_succ_eq_map, List.flatMap_cons, List.flatMap_cons, List.length_append,
        List.length_append]
      refine Nat.add_lt_add_of_lt_of_le ?_ ?_
      · rw [List.length_take, slice_length]
        omega
      · rw [List.length_flatMap, List.length_flatMap]
        refine List.sum_le_sum fun i _ => ?_
        rw [List.length_take]
        exact Nat.min_le_right ..
    rw [h, hwhole] at hcut
    exact Nat.lt_irrefl _ hcut
  · intro h
    refine Eq.trans (List.flatMap_congr fun i _ => ?_) hwhole
    rw [List.take_eq_self_iff, slice_length]
    omega

def discoveryAdmin : AdminState := { AdminState.new 0 with cntlid := 1, discovery := true }

def closedSubsystem (nqn : Nqn) (hosts : List Nqn) : SubsystemId :=
  { nqn := nqn, serial := [], allowAnyHost := false, allowedHosts := hosts }

def barePort : PortConfig where
  traddr := utf8 "10.0.0.1"
  trsvcid := utf8 "4420"
  trtype := .tcp
  maxQid := 1
  ioQueueSize := 128
  subsystems := []
  nodup := List.nodup_nil
  fits := PortConfig.fits_nil

def barePort.serving (subsystems : List SubsystemId) (nodup : (subsystems.map (·.nqn)).Nodup)
    (fits : 1024 * (subsystems.length + 1) < 2 ^ 63) : PortConfig :=
  { barePort with subsystems := subsystems, nodup := nodup, fits := fits }

def emptyTables : Admin.Tables Geometry := fun _ => .new []

/-- A discovery log page is the window the host asked for exactly when that window fits the admin
buffer, and consecutive windows give the log back exactly when each of them does. -/
theorem discovery_window_iff_fits (port : PortConfig) (tables : Admin.Tables B)
    (admin : AdminState) (hd : admin.discovery = true) :
    (∀ sqe, AsksDiscovery sqe → Admin.logLen sqe ≤ mdtsBytes →
      ∃ out, (Admin.execute port tables admin sqe).1 = some out ∧ out.status = Status.success ∧
        (out.data = slice (Admin.buildDiscoveryLog port) (Admin.logOffset sqe)
            (Admin.logLen sqe) ↔
          min (Admin.logLen sqe) ((Admin.buildDiscoveryLog port).length - Admin.logOffset sqe) ≤
            adminDataMax)) ∧
    ∀ w n, w % 4 = 0 → 0 < w → w ≤ mdtsBytes → (Admin.buildDiscoveryLog port).length ≤ n * w →
      (readWindows port tables admin w n = Admin.buildDiscoveryLog port ↔
        min w (Admin.buildDiscoveryLog port).length ≤ adminDataMax) := by
  constructor
  · intro sqe hask _
    refine ⟨_, by rw [execute_discovery port tables hd hask], rfl, ?_⟩
    rw [fillSlot_data_eq_iff, slice_length]
  · intro w n h4 hpos hmax hn
    rw [readWindows_eq port tables hd h4 hpos hmax, flatMap_take_slice_eq_iff _ hpos hn]

theorem discovery_window_iff_fits_entries :
    readWindows (barePort.serving [closedSubsystem [1] [], closedSubsystem [2] []] (by decide)
        (by decide)) emptyTables discoveryAdmin 1024 3 =
      Admin.buildDiscoveryLog (barePort.serving [closedSubsystem [1] [], closedSubsystem [2] []]
        (by decide) (by decide)) :=
  ((discovery_window_iff_fits _ emptyTables discoveryAdmin rfl).2 1024 3 (by decide) (by decide)
    (by decide) (by rw [buildDiscoveryLog_length]; decide)).2
    ((Nat.min_le_left ..).trans (by decide))

def eightSubsystems : PortConfig :=
  barePort.serving ((List.range 8).map fun i => closedSubsystem [UInt8.ofNat i] []) (by decide)
    (by decide)

/-- Asked for all 9216 bytes of its log, it returns the first 8192 with SUCCESS. -/
theorem discovery_window_cut_short :
    (Admin.buildDiscoveryLog eightSubsystems).length = 9216 ∧ 9216 ≤ mdtsBytes ∧
    Admin.logOffset (getDiscoveryLog 0 9216) = 0 ∧ Admin.logLen (getDiscoveryLog 0 9216) = 9216 ∧
    ((Admin.execute eightSubsystems emptyTables discoveryAdmin (getDiscoveryLog 0 9216)).1.map
      fun out => (out.status, out.dataLen, out.data.length)) =
        some (Status.success, 8192, 8192) := by
  decide +kernel

/-! ## What a host learns -/

def subnqnField (s : SubsystemId) : List UInt8 := nulTerminate 256 s.nqn

/-- The NQN fields a host reads out of a discovery log, entry by entry. -/
def logFields (log : List UInt8) : List (List UInt8) :=
  (List.range (leAt log 8 8)).map fun i => slice log (1024 * (i + 1) + 256) 256

theorem slice_discoveryLogEntry (port : PortConfig) (i : Nat) (nqn : Nqn) :
    slice (Admin.discoveryLogEntry port i nqn) 256 256 = nulTerminate 256 nqn := by
  unfold Admin.discoveryLogEntry
  rw [slice_append (discoveryLogEntryHead_length port i).le, discoveryLogEntryHead_length]
  exact List.take_left' (nulTerminate_length ..)

theorem numrec_buildDiscoveryLog (port : PortConfig) :
    leAt (Admin.buildDiscoveryLog port) 8 8 = port.subsystems.length := by
  have hslice : slice (Admin.buildDiscoveryLog port) 8 8 = toLe 8 port.subsystems.length := by
    unfold Admin.buildDiscoveryLog Admin.discoveryLogHeader
    simp only [List.append_assoc]
    rw [slice_append (toLe_length 8 1).le, toLe_length]
    exact List.take_left' (toLe_length ..)
  have hfits := port.fits
  rw [leAt, hslice, le_toLe, Nat.mod_eq_of_lt (by omega)]

theorem logFields_buildDiscoveryLog (port : PortConfig) :
    logFields (Admin.buildDiscoveryLog port) = port.subsystems.map subnqnField := by
  have hentry : ∀ i, slice (Admin.buildDiscoveryLog port) (1024 * (i + 1)) 1024 =
      (port.subsystems.zipIdx.map fun e =>
        Admin.discoveryLogEntry port e.2 e.1.nqn).getD i [] := by
    intro i
    unfold Admin.buildDiscoveryLog
    rw [slice_append (by rw [discoveryLogHeader_length]; omega), discoveryLogHeader_length,
      show 1024 * (i + 1) - 1024 = 1024 * i by omega, List.flatMap_def]
    refine slice_flatten (fun c hc => ?_) i
    obtain ⟨s, -, rfl⟩ := List.mem_map.1 hc
    exact discoveryLogEntry_length ..
  unfold logFields
  rw [numrec_buildDiscoveryLog]
  refine List.ext_getElem (by simp) fun i hi _ => ?_
  have hlt : i < port.subsystems.length := by simpa using hi
  rw [List.getElem_map, List.getElem_range, List.getElem_map,
    ← slice_slice (show 256 + 256 ≤ 1024 by decide), hentry i, List.getD_eq_getElem?_getD,
    List.getElem?_map, List.getElem?_zipIdx, List.getElem?_eq_getElem hlt]
  exact slice_discoveryLogEntry ..

/-- The configurations differ only in subsystems that do not admit `host`. -/
structure SameFor (host : Nqn) (p q : PortConfig) : Prop where
  traddr : p.traddr = q.traddr
  trsvcid : p.trsvcid = q.trsvcid
  trtype : p.trtype = q.trtype
  maxQid : p.maxQid = q.maxQid
  ioQueueSize : p.ioQueueSize = q.ioQueueSize
  admitted : p.subsystems.filter (·.admits host) = q.subsystems.filter (·.admits host)

/-- The log is determined by the port's address and the entries' NQN fields. -/
theorem buildDiscoveryLog_congr {host : Nqn} {p q : PortConfig} (h : SameFor host p q)
    (hf : p.subsystems.map subnqnField = q.subsystems.map subnqnField) :
    Admin.buildDiscoveryLog p = Admin.buildDiscoveryLog q := by
  have hlen : p.subsystems.length = q.subsystems.length := by
    simpa using congrArg List.length hf
  have hhead : Admin.discoveryLogEntryHead p = Admin.discoveryLogEntryHead q := by
    funext i
    unfold Admin.discoveryLogEntryHead
    rw [h.trtype, h.trsvcid]
  -- an entry as a function of its NQN field
  have hlog : ∀ r : PortConfig, (r.subsystems.zipIdx.flatMap fun e =>
      Admin.discoveryLogEntry r e.2 e.1.nqn) =
      (r.subsystems.map subnqnField).zipIdx.flatMap fun e =>
        Admin.discoveryLogEntryHead r e.2 ++ (e.1 ++ (asciiPad 256 r.traddr ++ zeros 256)) := by
    intro r
    rw [List.zipIdx_map, List.flatMap_map]
    rfl
  unfold Admin.buildDiscoveryLog
  rw [hlog p, hlog q, hf, hlen, hhead, h.traddr]

/-- Reading in windows of one entry gives a host the whole log. -/
theorem buildDiscoveryLog_eq_of_pages {p q : PortConfig} {tables : Admin.Tables B}
    (hd : admin.discovery = true)
    (h : ∀ sqe, AsksDiscovery sqe →
      (Admin.execute p tables admin sqe).1 = (Admin.execute q tables admin sqe).1) :
    Admin.buildDiscoveryLog p = Admin.buildDiscoveryLog q := by
  let n := p.subsystems.length + q.subsystems.length + 1
  have hread : ∀ r : PortConfig, r.subsystems.length < n →
      readWindows r tables admin 1024 n = Admin.buildDiscoveryLog r := by
    intro r hr
    have hlen := buildDiscoveryLog_length r
    rw [readWindows_eq r tables hd (by decide) (by decide) (by decide),
      flatMap_take_slice_eq_iff _ (by decide) (by omega)]
    exact (Nat.min_le_left ..).trans (by decide)
  rw [← hread p (by omega), ← hread q (by omega)]
  exact List.flatMap_congr fun i _ => by rw [h _ (getDiscoveryLog_asks ..)]

/-- Two configurations that differ only in subsystems hidden from a host give it the same pages
exactly when they list the same NQNs; and what a host learns are the subsystems that admit it, each
once, exactly when the port has no others. -/
theorem discovery_log_hides_iff (host : Nqn) (p q : PortConfig) (hsame : SameFor host p q)
    (tables : Admin.Tables B) (admin : AdminState) (hd : admin.discovery = true) :
    ((∀ sqe, AsksDiscovery sqe →
        (Admin.execute p tables admin sqe).1 = (Admin.execute q tables admin sqe).1) ↔
      p.subsystems.map subnqnField = q.subsystems.map subnqnField) ∧
    (logFields (Admin.buildDiscoveryLog p) =
        (p.subsystems.filter (·.admits host)).map subnqnField ↔
      ∀ s ∈ p.subsystems, s.admits host) := by
  refine ⟨⟨fun h => ?_, fun h sqe hask => ?_⟩, ?_⟩
  · rw [← logFields_buildDiscoveryLog, ← logFields_buildDiscoveryLog,
      buildDiscoveryLog_eq_of_pages hd h]
  · rw [execute_discovery p tables hd hask, execute_discovery q tables hd hask,
      buildDiscoveryLog_congr hsame h]
  · rw [logFields_buildDiscoveryLog]
    constructor
    · intro h
      have hlen := congrArg List.length h
      rw [List.length_map, List.length_map] at hlen
      exact List.length_filter_eq_length_iff.1 hlen.symm
    · intro h
      rw [List.filter_eq_self.2 h]

/-- Changing who else is admitted to a subsystem closed to the host does not show in its pages. -/
theorem discovery_log_hides_iff_same_names :
    let p := barePort.serving [closedSubsystem [1] [[7]], closedSubsystem [2] [[8]]] (by decide)
      (by decide)
    let q := barePort.serving [closedSubsystem [1] [[7]], closedSubsystem [2] [[9]]] (by decide)
      (by decide)
    ∀ sqe, AsksDiscovery sqe → (Admin.execute p emptyTables discoveryAdmin sqe).1 =
      (Admin.execute q emptyTables discoveryAdmin sqe).1 := by
  intro p q
  exact (discovery_log_hides_iff [7] p q ⟨rfl, rfl, rfl, rfl, rfl, rfl⟩ emptyTables discoveryAdmin
    rfl).1.2 rfl

/-- Two ports that differ in a subsystem closed to the host give it different pages, and the one
that has the subsystem names it. -/
theorem discovery_log_names_hidden :
    let shown := barePort.serving [closedSubsystem [1] [[9]]] (by decide) (by decide)
    (closedSubsystem [1] [[9]]).admits [7] = false ∧
    shown.subsystems.filter (·.admits [7]) = barePort.subsystems.filter (·.admits [7]) ∧
    ((Admin.execute shown emptyTables discoveryAdmin (getDiscoveryLog 0 2048)).1.map
      fun out => (out.status, logFields out.data)) =
        some (Status.success, [subnqnField (closedSubsystem [1] [[9]])]) ∧
    ((Admin.execute barePort emptyTables discoveryAdmin (getDiscoveryLog 0 2048)).1.map
      fun out => (out.status, logFields out.data)) = some (Status.success, []) := by
  decide +kernel

end Ioutgt.Nvme
