import Ioutgt.Lib.Run
import Ioutgt.Nvme.Dispatch

/-!
# Keep-alive

The watchdog of an admin queue with the clock. A sleep ends at most `late` milliseconds after it
should.

* `closed_only_when_silent`: who is heard from stays connected, and a silent host does not.
-/

namespace Ioutgt.Tcp

open Lib Ioutgt.Nvme

structure KeepAlive where
  admin : AdminState
  flag : Bool
  now : Nat
  wakes : Nat
  closed : Option Nat
  /-- When an admin command or a beacon was last heard; no code reads it. -/
  heard : Nat

namespace KeepAlive

inductive Action where
  | pass (ms : Nat)
  /-- An admin command that leaves these in the queue's state. -/
  | command (katoMs : Nat) (traffic : Option Nat)
  | beacon
  | wake

def new : KeepAlive where
  admin := .new 0
  flag := false
  now := 0
  wakes := keepaliveTick 0
  closed := none
  heard := 0

def woken (s : KeepAlive) : KeepAlive :=
  let (closed, admin) := s.admin.keepaliveExpired s.flag s.now
  -- the flag is looked at, and taken, only while keep-alive is on
  let flag := s.flag && (s.admin.katoMs == 0 || s.admin.traffic.isNone)
  { s with closed, admin, flag, wakes := s.now + keepaliveTick admin.katoMs }

def step (late : Nat) (s : KeepAlive) : Action → Option KeepAlive
  | .pass ms =>
    if s.closed = none → s.now + ms ≤ s.wakes + late then some { s with now := s.now + ms }
    else none
  | .command katoMs traffic =>
    -- a flag that is there stays there
    let traffic := s.admin.traffic <|> traffic
    some { s with admin := { s.admin with lastHeard := s.now, katoMs, traffic }, heard := s.now }
  | .beacon =>
    -- IO queues have the flag of the controller that the admin queue has created
    if s.admin.traffic.isSome then some { s with flag := true, heard := s.now } else none
  | .wake => if s.closed = none ∧ s.wakes ≤ s.now then some s.woken else none

def grace (s : KeepAlive) : Nat := s.admin.katoMs * 2 + keepaliveTick s.admin.katoMs

variable {late : Nat} {s s' : KeepAlive} {a : Action}

theorem keepaliveTick_le (katoMs : Nat) : keepaliveTick katoMs ≤ keepaliveTickMax := by
  unfold keepaliveTick
  split
  · exact Nat.le_refl _
  · exact Nat.max_le.2 ⟨by decide, Nat.min_le_right ..⟩

/-- When the watchdog looks next, and what it has missed by then. -/
structure Inv (late : Nat) (s : KeepAlive) : Prop where
  past : s.heard ≤ s.now ∧ s.admin.lastHeard ≤ s.now
  next : s.wakes ≤ s.now + keepaliveTickMax
  due : s.closed = none → s.now ≤ s.wakes + late
  silent : s.admin.katoMs ≠ 0 → s.closed = none →
    s.wakes ≤ s.admin.lastHeard + s.grace + keepaliveTickMax
  flag : s.flag = true → s.admin.traffic.isSome ∧
    (s.admin.katoMs ≠ 0 → s.wakes ≤ s.heard + keepaliveTickMax)
  heard : s.flag = false → s.heard ≤ s.admin.lastHeard
  recent : s.admin.lastHeard ≤ s.heard + keepaliveTickMax + late

/-- The watchdog closes for a silence as long as it takes it to be. -/
theorem Inv.wake (h : Inv late s) (hs : s.step late .wake = some s') : Inv late s' ∧
    (s'.closed ≠ none → s.admin.katoMs ≠ 0 ∧ s.heard + s.grace < s.now) := by
  obtain ⟨⟨hpast, hlast⟩, next, due, -, flag, heard, recent⟩ := h
  obtain ⟨⟨hopen, hwake⟩, rfl⟩ := of_guard hs
  have htick := keepaliveTick_le s.admin.katoMs
  have hdue := due hopen
  by_cases hk : s.admin.katoMs = 0
  · have heq : s.woken = { s with closed := none, wakes := s.now + keepaliveTick 0 } := by
      simp [woken, AdminState.keepaliveExpired, hk]
    rw [heq]
    rw [hk] at htick
    refine ⟨⟨⟨hpast, hlast⟩, ?_, fun _ => ?_, fun h => absurd hk h,
      fun hf => ⟨(flag hf).1, fun h => absurd hk h⟩, heard, recent⟩, fun h => absurd rfl h⟩ <;>
      dsimp only <;> omega
  cases hf : s.flag with
  | true =>
    obtain ⟨ht, hup⟩ := flag hf
    specialize hup hk
    have heq : s.woken = { s with
        closed := none, flag := false, admin := { s.admin with lastHeard := s.now }
        wakes := s.now + keepaliveTick s.admin.katoMs } := by
      simp [woken, AdminState.keepaliveExpired, hk, hf, ht]
    rw [heq]
    refine ⟨⟨⟨hpast, le_rfl⟩, ?_, fun _ => ?_, fun _ _ => ?_, (fun h => by cases h), fun _ => hpast,
      ?_⟩, fun h => absurd rfl h⟩ <;> dsimp only <;> omega
  | false =>
    -- nothing has been heard that is not noted: the silence is judged
    have hheard := heard hf
    have heq : s.woken = { s with
        closed := if s.now - s.admin.lastHeard > s.grace then some (s.now - s.admin.lastHeard)
          else none
        wakes := s.now + keepaliveTick s.admin.katoMs } := by
      simp [woken, AdminState.keepaliveExpired, hk, hf, grace]
    rw [heq]
    refine ⟨⟨⟨hpast, hlast⟩, ?_, fun _ => ?_, fun _ hc => ?_,
      (fun h => absurd (hf.symm.trans h) (by decide)), heard, recent⟩, fun hc => ⟨hk, ?_⟩⟩
    · dsimp only
      omega
    · dsimp only
      omega
    · have hle : ¬s.now - s.admin.lastHeard > s.grace := fun hgt => by simp [hgt] at hc
      show s.now + _ ≤ s.admin.lastHeard + s.grace + _
      omega
    · by_contra hle
      exact hc (if_neg (by omega))

theorem Inv.step (h : Inv late s) (hs : s.step late a = some s') : Inv late s' := by
  cases a with
  | pass ms =>
    obtain ⟨hg, rfl⟩ := of_guard hs
    exact { h with
      past := ⟨Nat.le_add_right_of_le h.past.1, Nat.le_add_right_of_le h.past.2⟩
      next := Nat.le_trans h.next (by dsimp only; omega)
      due := hg }
  | command katoMs traffic =>
    obtain rfl := Option.some.inj hs
    have htraffic : s.flag = true → (s.admin.traffic <|> traffic).isSome := fun hf => by
      obtain ⟨t, ht⟩ := Option.isSome_iff_exists.1 (h.flag hf).1
      simp [ht]
    have hnext := h.next
    refine ⟨⟨le_rfl, le_rfl⟩, hnext, h.due, fun _ _ => ?_,
      fun hf => ⟨htraffic hf, fun _ => hnext⟩, fun _ => le_rfl, ?_⟩ <;> dsimp only <;> omega
  | beacon =>
    obtain ⟨ht, rfl⟩ := of_guard hs
    exact { h with
      past := ⟨le_rfl, h.past.2⟩
      flag := fun _ => ⟨ht, fun _ => h.next⟩
      heard := fun h => by cases h
      recent := Nat.le_trans h.past.2 (by dsimp only; omega) }
  | wake => exact (h.wake hs).1

/-- **Keep-alive.** Whatever commands and beacons come, and when: the watchdog closes a connection
only if nothing was heard for longer than the grace; and as long as it has not, the silence is
within the grace, two of the longest ticks and the delay of two sleeps. -/
theorem closed_only_when_silent {as : List Action} (hr : runFrom (step late) new as = some s) :
    (∀ s', s.step late .wake = some s' → s'.closed ≠ none →
      s.admin.katoMs ≠ 0 ∧ s.heard + s.grace < s.now) ∧
    (s.closed = none → s.admin.katoMs ≠ 0 →
      s.now ≤ s.heard + s.grace + 2 * (keepaliveTickMax + late)) := by
  have hi : Inv late s := runFrom_invariant Inv.step
    ⟨⟨le_rfl, le_rfl⟩, le_rfl, fun _ => Nat.zero_le _, fun h => absurd rfl h, (fun h => by cases h),
      fun _ => le_rfl, Nat.zero_le _⟩ hr
  refine ⟨fun s' hs => (hi.wake hs).2, fun hopen hk => ?_⟩
  have hdue := hi.due hopen
  have hsilent := hi.silent hk hopen
  have hrecent := hi.recent
  omega

theorem closed_only_when_silent_kato : ∃ s s', runFrom (step 0) new
    [.command 1000 none, .pass 5000] = some s ∧ s.step 0 .wake = some s' ∧
      s'.closed = some 5000 ∧ s.heard + s.grace < s.now := by
  have hrun : (runFrom (step 0) new [.command 1000 none, .pass 5000]).map
      (fun s => (s.step 0 .wake).map (·.closed)) = some (some (some 5000)) := by decide +kernel
  obtain ⟨s, hs, h⟩ := Option.map_eq_some_iff.1 hrun
  obtain ⟨s', hs', hc⟩ := Option.map_eq_some_iff.1 h
  exact ⟨s, s', hs, hs', hc, ((closed_only_when_silent hs).1 s' hs' (by rw [hc]; decide)).2⟩

end KeepAlive

end Ioutgt.Tcp
