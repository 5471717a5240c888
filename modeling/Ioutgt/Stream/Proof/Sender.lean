import Ioutgt.Lib.Run
import Ioutgt.Tcp.SendLoop
import Mathlib.Algebra.BigOperators.Fin

/-!
# What the sender gives back, and when

Three facts carry the results. Every operation whose final notification is still to come is in its
batch's list or awaited by the task (`Tracked`); a batch that is neither in flight nor being worked on
is fresh (`Idle`); and a staged item's tag is in one list of one batch or was released, never
twice (`Accounted`). A batch is recycled only when its list is empty, so nothing is outstanding for it
then.

* `Notifs`, `notifs_step`: the notifications, at each place of the task.
* `Tickets`, `tickets_step`: the tags.
* `sender_accounts_for_tags_and_notifs`: what every run of the sender keeps.
-/

namespace Ioutgt.Stream

open Lib

open Ioutgt.Tcp (Staged)

namespace SendTask

variable {W : Type} {s s' : SendTask W} {stage : Memory → W → Stage} {i idx : Fin 2} {op : Nat}
  {b : GatherSendBatch} {a : SendAction W} {p : Place W} {res : Except Nat Nat} {c : Staged}

/-! ## Frames -/

theorem mem_outstanding :
    op ∈ s.outstanding i ↔ s.issued[op]? = some i ∧ s.notified op = none := by
  simp only [outstanding, List.mem_filter, List.mem_range, Bool.and_eq_true, decide_eq_true_eq,
    Option.isNone_iff_eq_none]
  refine ⟨fun h => h.2, fun h => ⟨?_, h⟩⟩
  exact (List.getElem?_eq_some_iff.1 h.1).1

@[simp] theorem batch_setBatch_self (b : GatherSendBatch) : (s.setBatch idx b).batch idx = b := by
  simp [batch, setBatch, StreamSender.setBatch]

theorem batch_setBatch_of_ne (b : GatherSendBatch) (h : i ≠ idx) :
    (s.setBatch idx b).batch i = s.batch i := by
  simp [batch, setBatch, StreamSender.setBatch, Function.update_of_ne h]

theorem setBatch_rel {R : GatherSendBatch → GatherSendBatch → Prop}
    (h : ∀ i, R (s.batch i) (s.batch i)) (hb : R (s.batch idx) b) (i : Fin 2) :
    R (s.batch i) ((s.setBatch idx b).batch i) := by
  by_cases hi : i = idx
  · subst hi
    rw [batch_setBatch_self]
    exact hb
  · rw [batch_setBatch_of_ne _ hi]
    exact h i

theorem setBatch_view {α : Type} (v : GatherSendBatch → α) (hb : v b = v (s.batch idx)) (i : Fin 2) :
    v ((s.setBatch idx b).batch i) = v (s.batch i) :=
  setBatch_rel (R := fun b b' => v b' = v b) (fun _ => rfl) hb i

@[simp] theorem batch_releaseTags (tags : List Ticket) :
    (s.releaseTags idx tags).batch i = s.batch i := rfl

@[simp] theorem recycle_self : (s.recycle idx).batch idx = (s.batch idx).reset := by simp [recycle]

theorem recycle_of_ne (h : i ≠ idx) : (s.recycle idx).batch i = s.batch i := by
  rw [recycle, batch_setBatch_of_ne _ h, batch_releaseTags]

@[simp] theorem recycle_pendingNotifs (i : Fin 2) :
    ((s.recycle idx).batch i).pendingNotifs = (s.batch i).pendingNotifs := by
  refine setBatch_view GatherSendBatch.pendingNotifs ?_ i
  rfl

/-! ## What a step is -/

/-- A step of the task or of what is around it, by where the task is. -/
inductive Stepped (stage : Memory → W → Stage) (s : SendTask W) : SendAction W → SendTask W → Prop where
  | push (w : W) : Stepped stage s (.push w) { s with work := s.work ++ [w] }
  | close : Stepped stage s .close { s with closed := true }
  | store (addr : Nat) (byte : UInt8) :
    Stepped stage s (.store addr byte) { s with memory := Function.update s.memory addr byte }
  | notify (op : Nat) (copied : Bool) : Stepped stage s (.notify op copied)
    { s with notified := Function.update s.notified op (some copied) }
  | next {t} (hplace : s.place = .top) (hnext : s.next = some t) : Stepped stage s .run t
  | acquire {first} (hplace : s.place = .acquire first) : Stepped stage s .run (s.acquire first)
  | choose {first} (hplace : s.place = .choose first) : Stepped stage s .run (s.choose stage first)
  | reap {i after} (hplace : s.place = .reap i after) : Stepped stage s .run (s.reap i after)
  | await {i n after} (hplace : s.place = .await i n after) (harrived : (s.notified n).isSome) :
    Stepped stage s .run { s.noteCopied [n] with place := .reap i after }
  | ship {i useZc} (hplace : s.place = .ship i useZc) : Stepped stage s .run (s.ship i useZc)
  | drain {r} (hplace : s.place = .drain r) : Stepped stage s .run (s.drain r)
  | refuse {i useZc} (errno : Nat) (hplace : s.place = .ship i useZc) :
    Stepped stage s (.refuse errno) { s with place := .drain (.os errno) }
  | sentZc {i n fixed} (res : Except Nat Nat) (hplace : s.place = .sentZc i n fixed) :
    Stepped stage s (.sent res) ((s.stashNotif i n).zcResult i fixed res)
  | sentCopy {j} (res : Except Nat Nat) (hplace : s.place = .sentCopy j) :
    Stepped stage s (.sent res) (s.copyResult j res)

theorem stepped (hs : step stage s a = some s') : Stepped stage s a s' := by
  cases a with
  | push w => exact Option.some.inj hs ▸ .push w
  | close => exact Option.some.inj hs ▸ .close
  | store addr byte => exact Option.some.inj hs ▸ .store addr byte
  | notify op copied =>
    obtain ⟨-, rfl⟩ := of_guard hs
    exact .notify op copied
  | run =>
    replace hs : s.run stage = some s' := hs
    rw [run] at hs
    cases hplace : s.place with
    | top => exact .next hplace (by simpa only [hplace] using hs)
    | await idx op after =>
      rw [hplace] at hs
      obtain ⟨harrived, rfl⟩ := of_guard hs
      exact .await hplace harrived
    | acquire first => exact (by simpa [hplace] using hs : s.acquire first = s') ▸ .acquire hplace
    | choose first => exact (by simpa [hplace] using hs : s.choose stage first = s') ▸ .choose hplace
    | reap idx after => exact (by simpa [hplace] using hs : s.reap idx after = s') ▸ .reap hplace
    | ship idx useZc => exact (by simpa [hplace] using hs : s.ship idx useZc = s') ▸ .ship hplace
    | drain r => exact (by simpa [hplace] using hs : s.drain r = s') ▸ .drain hplace
    | sentZc idx op fixed | sentCopy idx | returned r | panicked => simp [hplace] at hs
  | refuse errno =>
    cases hplace : s.place with
    | ship idx useZc =>
      simp only [step, hplace] at hs
      exact Option.some.inj hs ▸ .refuse errno hplace
    | _ => simp [step, hplace] at hs
  | sent res =>
    cases hplace : s.place with
    | sentZc idx op fixed =>
      simp only [step, hplace] at hs
      exact Option.some.inj hs ▸ .sentZc res hplace
    | sentCopy idx =>
      simp only [step, hplace] at hs
      exact Option.some.inj hs ▸ .sentCopy res hplace
    | _ => simp [step, hplace] at hs

/-! ## Notifications -/

/-- Every outstanding operation is in its batch's list, or is the one `held`. -/
def Tracked (s : SendTask W) (held : Option (Fin 2 × Nat)) : Prop :=
  ∀ i op, op ∈ s.outstanding i → op ∈ (s.batch i).pendingNotifs ∨ held = some (i, op)

/-- Nothing is staged in the batch, and no notification of it is to come. -/
structure Fresh (b : GatherSendBatch) : Prop where
  pending : b.pendingNotifs = []
  iovs : b.gather.iovs = []
  live : b.gather.live = 0
  arenaUsed : b.gather.arenaUsed = 0

def Idle (s : SendTask W) (used : Option (Fin 2)) : Prop :=
  ∀ i, i ∉ s.sender.inflight → used ≠ some i → Fresh (s.batch i)

def AfterOk (s : SendTask W) (idx : Fin 2) : After W → Prop
  | .choose _ => s.Idle (some idx) ∧ s.sender.inflight.length < 2
  | .drain _ => True
  | .last _ => s.sender.inflight = [] ∧ ∀ j < idx, s.outstanding j = []

def PlaceOk (s : SendTask W) : Place W → Prop
  | .top | .acquire _ => s.Idle none
  | .choose _ => s.Idle none ∧ s.sender.inflight.length < 2
  | .reap idx after | .await idx _ after => idx ∉ s.sender.inflight ∧ s.AfterOk idx after
  | .ship idx _ | .sentZc idx _ _ | .sentCopy idx => idx ∉ s.sender.inflight ∧ s.Idle (some idx)
  | .drain _ => True
  | .returned _ => ∀ i, s.outstanding i = []
  | .panicked => False

def heldOp : Place W → Option (Fin 2 × Nat)
  | .await idx op _ | .sentZc idx op _ => some (idx, op)
  | _ => none

structure Notifs (s : SendTask W) : Prop where
  nodup : s.sender.inflight.Nodup
  tracked : s.Tracked (heldOp s.place)
  placed : s.PlaceOk s.place

theorem Tracked.outstanding_nil (h : s.Tracked none) (hpending : (s.batch i).pendingNotifs = []) :
    s.outstanding i = [] := by
  refine List.eq_nil_iff_forall_not_mem.2 fun op hop => ?_
  rcases h i op hop with hmem | hheld
  · rw [hpending] at hmem
    cases hmem
  · cases hheld

theorem Tracked.congr {held : Option (Fin 2 × Nat)} (h : s.Tracked held)
    (hbatch : ∀ i, (s'.batch i).pendingNotifs = (s.batch i).pendingNotifs)
    (hout : s'.outstanding = s.outstanding) : s'.Tracked held := by
  intro i op hop
  rw [hbatch i]
  exact h i op (hout ▸ hop)

theorem Idle.beside (h : s.Idle (some idx)) (hother : ∀ i, i ≠ idx → s'.batch i = s.batch i)
    (hin : s'.sender.inflight = s.sender.inflight) : s'.Idle (some idx) := by
  intro i hi hused
  rw [hother i fun he => hused (congrArg some he.symm)]
  exact h i (hin ▸ hi) hused

theorem Idle.recycle (h : s.Idle (some idx)) (hnil : (s.batch idx).pendingNotifs = []) :
    (s.recycle idx).Idle none := by
  intro i hi _
  by_cases hne : i = idx
  · subst hne
    rw [recycle_self]
    exact ⟨hnil, rfl, rfl, rfl⟩
  · rw [recycle_of_ne hne]
    exact h i hi (by simpa using Ne.symm hne)

theorem Notifs.notified (h : Notifs s) {notified : Nat → Option Bool}
    (hout : ∀ i op, op ∈ ({ s with notified } : SendTask W).outstanding i → op ∈ s.outstanding i) :
    Notifs { s with notified } := by
  have hnil : ∀ i, s.outstanding i = [] → ({ s with notified } : SendTask W).outstanding i = [] := by
    intro i hi
    refine List.eq_nil_iff_forall_not_mem.2 fun op hop => ?_
    have hmem := hout i op hop
    rw [hi] at hmem
    cases hmem
  have hplaced : ∀ {p : Place W}, s.PlaceOk p → ({ s with notified } : SendTask W).PlaceOk p := by
    intro p h
    cases p with
    | reap idx after | await idx op after =>
      cases after with
      | last r => exact ⟨h.1, h.2.1, fun j hj => hnil j (h.2.2 j hj)⟩
      | choose first | drain r => exact h
    | returned r => exact fun i => hnil i (h i)
    | _ => exact h
  exact ⟨h.nodup, fun i op hop => h.tracked i op (hout i op hop), hplaced h.placed⟩

theorem pollNotifs_kept {arrived : Nat → Bool} (hop : arrived op = false) :
    ∀ {fuel : Nat} {kept rest : List Nat}, op ∈ kept ∨ op ∈ rest → op ∈ pollNotifs arrived fuel kept rest
  | 0, kept, rest, h => by simpa [pollNotifs] using h
  | fuel + 1, kept, [], h => by simpa [pollNotifs] using h
  | fuel + 1, kept, o :: rest, h => by
    rw [pollNotifs]
    by_cases harrived : arrived o
    · have hne : op ≠ o := by
        rintro rfl
        rw [hop] at harrived
        cases harrived
      have h : op ∈ kept ∨ op ∈ rest := by simpa [hne] using h
      rw [if_pos harrived]
      cases hlast : rest.getLast? with
      | none =>
        obtain rfl := List.getLast?_eq_none_iff.1 hlast
        simpa using h
      | some last =>
        refine pollNotifs_kept hop (h.imp_right fun hmem => ?_)
        obtain ⟨init, rfl⟩ := List.getLast?_eq_some_iff.1 hlast
        simpa [or_comm] using hmem
    · rw [if_neg harrived]
      refine pollNotifs_kept hop ?_
      rcases h with h | h
      · exact .inl (by simp [h])
      · rcases List.mem_cons.1 h with rfl | h
        · exact .inl (by simp)
        · exact .inr h

/-! ### The steps of the task -/

/-- A list that only batch `idx` may lose from, and only what has arrived or is held. -/
theorem Tracked.change {held held' : Option (Fin 2 × Nat)} (h : s.Tracked held)
    (hout : ∀ i op, op ∈ s'.outstanding i → op ∈ s.outstanding i)
    (hother : ∀ i, i ≠ idx → (s'.batch i).pendingNotifs = (s.batch i).pendingNotifs)
    (hheld : ∀ i op, i ≠ idx → held ≠ some (i, op))
    (hidx : ∀ op, op ∈ s'.outstanding idx → op ∈ (s.batch idx).pendingNotifs ∨ held = some (idx, op) →
      op ∈ (s'.batch idx).pendingNotifs ∨ held' = some (idx, op)) : s'.Tracked held' := by
  intro i op hop
  have hold := h i op (hout i op hop)
  by_cases hi : i = idx
  · subst hi
    exact hidx op hop hold
  · rw [hother i hi]
    exact .inl (hold.resolve_right (hheld i op hi))

theorem Notifs.at_place (h : Notifs s) (hplace : s.place = p) :
    s.Tracked (heldOp p) ∧ s.PlaceOk p := by
  subst hplace
  exact ⟨h.tracked, h.placed⟩

theorem notifs_of_place (hplace : s.place = p) (hnodup : s.sender.inflight.Nodup)
    (htracked : s.Tracked (heldOp p)) (hplaced : s.PlaceOk p) : Notifs s := by
  subst hplace
  exact ⟨hnodup, htracked, hplaced⟩

theorem Notifs.goto {q : Place W} (h : Notifs s) (hplace : s.place = p)
    (hheld : heldOp q = heldOp p) (hq : s.PlaceOk p → s.PlaceOk q) :
    Notifs { s with place := q } := by
  obtain ⟨htracked, hplaced⟩ := h.at_place hplace
  exact notifs_of_place rfl h.nodup (hheld ▸ htracked) (hq hplaced)

def polled (s : SendTask W) (idx : Fin 2) (left : List Nat) : SendTask W :=
  (s.noteCopied (s.batch idx).pendingNotifs).setBatch idx { s.batch idx with pendingNotifs := left }

theorem pollFront_cases (s : SendTask W) (idx : Fin 2) (rest : List (Fin 2)) :
    ∃ left : List Nat, (∀ op, op ∈ s.outstanding idx → op ∈ (s.batch idx).pendingNotifs → op ∈ left) ∧
      (left = [] ∧ s.pollFront idx rest =
          SendTask.recycle { s.polled idx left with
            sender := { (s.polled idx left).sender with inflight := rest } } idx ∨
        s.pollFront idx rest = s.polled idx left) := by
  refine ⟨pollNotifs (fun op => (s.notified op).isSome) (s.batch idx).pendingNotifs.length []
    (s.batch idx).pendingNotifs, fun op hop hmem => ?_, ?_⟩
  · exact pollNotifs_kept (by simp [(mem_outstanding.1 hop).2]) (.inr hmem)
  · simp only [pollFront]
    split
    · rename_i hleft
      exact .inl ⟨hleft, rfl⟩
    · exact .inr rfl

theorem notifs_pollFront {rest : List (Fin 2)} (h : Notifs s) (hplace : s.place = .top)
    (hin : s.sender.inflight = idx :: rest) : Notifs (s.pollFront idx rest) := by
  obtain ⟨htracked, hidle⟩ := h.at_place hplace
  have hnodup := h.nodup
  rw [hin, List.nodup_cons] at hnodup
  obtain ⟨left, hkept, hcases⟩ := pollFront_cases s idx rest
  have hself : (s.polled idx left).batch idx = { s.batch idx with pendingNotifs := left } :=
    batch_setBatch_self _
  have hother : ∀ i, i ≠ idx → (s.polled idx left).batch i = s.batch i :=
    fun i hi => batch_setBatch_of_ne _ hi
  have htracked' : (s.polled idx left).Tracked none := by
    refine htracked.change (fun _ _ => id) (fun i hi => by rw [hother i hi]) (fun _ _ _ => nofun) ?_
    intro op hop hold
    rw [hself]
    exact .inl (hkept op hop (hold.resolve_right nofun))
  rcases hcases with ⟨hleft, heq⟩ | heq
  · rw [heq]
    refine notifs_of_place hplace hnodup.2 (htracked'.congr (fun i => recycle_pendingNotifs i)
      rfl) (Idle.recycle ?_ (by rw [← hleft]; exact congrArg _ hself))
    intro i hi hne
    have hne : i ≠ idx := fun he => hne (congrArg some he.symm)
    exact (hother i hne).symm ▸ hidle i (by simp [hin, hne, show i ∉ rest from hi]) nofun
  · rw [heq]
    refine notifs_of_place hplace h.nodup htracked' fun i hi _ => ?_
    have hi : i ∉ s.sender.inflight := hi
    rw [hother i fun he => hi (by simp [hin, he])]
    exact hidle i hi nofun

theorem notifs_next (h : Notifs s) (hplace : s.place = .top) (hs : s.next = some s') : Notifs s' := by
  obtain ⟨htracked, hidle⟩ := h.at_place hplace
  simp only [next] at hs
  split at hs
  · obtain rfl := Option.some.inj hs
    exact notifs_of_place rfl h.nodup htracked hidle
  · obtain rfl := Option.some.inj hs
    exact notifs_of_place rfl h.nodup htracked hidle
  · split at hs
    · obtain rfl := Option.some.inj hs
      exact h.goto hplace rfl fun _ => trivial
    · split at hs
      · cases hs
      · rename_i hin
        obtain rfl := Option.some.inj hs
        exact notifs_pollFront h hplace hin

theorem notifs_acquire {first : W} (h : Notifs s) (hplace : s.place = .acquire first) :
    Notifs (s.acquire first) := by
  obtain ⟨htracked, hidle⟩ := h.at_place hplace
  have hle : s.sender.inflight.length ≤ 2 := by simpa using h.nodup.length_le_card
  rw [acquire]
  split
  · rename_i hlen
    split
    · rename_i idx rest hin
      have hnodup := h.nodup
      rw [hin, List.nodup_cons] at hnodup
      refine notifs_of_place rfl hnodup.2 htracked ⟨hnodup.1, ?_, ?_⟩
      · intro i hi hne
        refine hidle i ?_ (by simp)
        rw [hin]
        simpa [hi] using Ne.symm hne
      · simp only [hin, List.length_cons] at hlen
        show rest.length < 2
        omega
    · rename_i hin
      simp [hin] at hlen
  · rename_i hlen
    exact h.goto hplace rfl fun h => ⟨h, by omega⟩

theorem free_of_length_lt (h : s.sender.inflight.length < 2) :
    ∃ idx, s.sender.free = some idx ∧ idx ∉ s.sender.inflight := by
  have hex : ∃ i, i ∉ s.sender.inflight := by
    by_contra hall
    push Not at hall
    have hle : (List.finRange 2).length ≤ s.sender.inflight.length :=
      ((List.nodup_finRange 2).subperm fun i _ => hall i).length_le
    simp at hle
    omega
  obtain ⟨i, hi⟩ := hex
  have hsome : s.sender.free.isSome := by
    simp only [StreamSender.free, List.find?_isSome]
    exact ⟨i, List.mem_finRange i, by simpa using hi⟩
  obtain ⟨idx, hidx⟩ := Option.isSome_iff_exists.1 hsome
  exact ⟨idx, hidx, by simpa using List.find?_some hidx⟩

theorem fileTag_pendingNotifs (b : GatherSendBatch) (item : Nat) (r : Staged) :
    (b.fileTag item r).pendingNotifs = b.pendingNotifs := by cases r <;> rfl

theorem stageBatch_pendingNotifs (cap : Option Nat) : ∀ (ws : List W) (b : GatherSendBatch)
    (m : Memory) (staged : List Stage),
    (stageBatch stage cap ws b m staged).batch.pendingNotifs = b.pendingNotifs
  | [], _, _, _ => rfl
  | w :: ws, b, m, staged => by
    simp only [stageBatch]
    split
    · split
      · exact fileTag_pendingNotifs _ _ _
      · rw [stageBatch_pendingNotifs cap ws, fileTag_pendingNotifs]
    · rfl

theorem notifs_choose {first : W} (h : Notifs s) (hplace : s.place = .choose first) :
    Notifs (s.choose stage first) := by
  obtain ⟨htracked, hidle, hroom⟩ := h.at_place hplace
  obtain ⟨idx, hfree, hidx⟩ := free_of_length_lt hroom
  have hbatch : ∀ i, ((s.choose stage first).batch i).pendingNotifs = (s.batch i).pendingNotifs := by
    intro i
    simp only [choose, hfree]
    exact setBatch_view GatherSendBatch.pendingNotifs (stageBatch_pendingNotifs _ _ _ _ _) i
  have hin : (s.choose stage first).sender.inflight = s.sender.inflight := by
    simp only [choose, hfree]
    rfl
  have hout : ∀ i, (s.choose stage first).outstanding i = s.outstanding i := by
    intro i
    simp only [choose, hfree]
    rfl
  have hplace' : ∃ useZc, (s.choose stage first).place = .ship idx useZc := by
    simp only [choose, hfree]
    exact ⟨_, rfl⟩
  obtain ⟨useZc, hplace'⟩ := hplace'
  refine notifs_of_place hplace' (hin ▸ h.nodup)
    (htracked.congr hbatch (funext hout)) ⟨hin ▸ hidx, fun i hi hne => ?_⟩
  have hsame : (s.choose stage first).batch i = s.batch i := by
    simp only [choose, hfree]
    exact batch_setBatch_of_ne _ fun he => hne (congrArg some he.symm)
  exact hsame ▸ hidle i (hin ▸ hi) nofun

theorem notifs_reap {after : After W} (h : Notifs s) (hplace : s.place = .reap idx after) :
    Notifs (s.reap idx after) := by
  obtain ⟨htracked, hidx, hafter⟩ := h.at_place hplace
  rw [reap]
  split
  · -- one more to await
    rename_i op hlast
    obtain ⟨init, hpending⟩ := List.getLast?_eq_some_iff.1 hlast
    have hother : ∀ i, i ≠ idx → (s.setBatch idx { s.batch idx with
        pendingNotifs := (s.batch idx).pendingNotifs.dropLast }).batch i = s.batch i := fun i hi =>
      batch_setBatch_of_ne _ hi
    refine notifs_of_place rfl h.nodup ?_ ⟨hidx, ?_⟩
    · refine htracked.change (fun _ _ => id) (fun i hi => congrArg _ (hother i hi))
        (fun _ _ _ => nofun) ?_
      intro o _ hold
      have hmem : o ∈ (s.batch idx).pendingNotifs := hold.resolve_right nofun
      rw [hpending, List.mem_append, List.mem_singleton] at hmem
      refine hmem.imp (fun hmem => ?_) fun hmem => by rw [hmem]; rfl
      show o ∈ ((s.setBatch idx { s.batch idx with
        pendingNotifs := (s.batch idx).pendingNotifs.dropLast }).batch idx).pendingNotifs
      rw [batch_setBatch_self]
      simpa [hpending] using hmem
    · cases after with
      | choose first => exact ⟨hafter.1.beside hother rfl, hafter.2⟩
      | drain r => trivial
      | last r => exact hafter
  · -- the batch is clean
    rename_i hlast
    have hpending := List.getLast?_eq_none_iff.1 hlast
    have hnil := htracked.outstanding_nil hpending
    have htracked' : (s.recycle idx).Tracked none :=
      htracked.congr (fun i => recycle_pendingNotifs i) rfl
    cases after with
    | choose first =>
      exact notifs_of_place rfl h.nodup htracked' ⟨hafter.1.recycle hpending, hafter.2⟩
    | drain r => exact notifs_of_place rfl h.nodup htracked' trivial
    | last r =>
      by_cases h0 : idx = 0
      · subst h0
        refine notifs_of_place rfl h.nodup htracked' ⟨?_, hafter.1, fun j hj => ?_⟩
        · show 1 ∉ s.sender.inflight
          simp [hafter.1]
        · obtain rfl : j = 0 := by omega
          exact hnil
      · have h1 : idx = 1 := by omega
        subst h1
        refine notifs_of_place rfl h.nodup htracked' fun i => ?_
        show s.outstanding i = []
        rcases Fin.exists_fin_two.1 ⟨i, rfl⟩ with rfl | rfl
        · exact hafter.2 0 Fin.zero_lt_one
        · exact hnil

theorem notifs_ship {useZc : Bool} (h : Notifs s) (hplace : s.place = .ship idx useZc) :
    Notifs (s.ship idx useZc) := by
  obtain ⟨htracked, hidx, hidle⟩ := h.at_place hplace
  cases useZc with
  | false => exact h.goto hplace rfl id
  | true =>
    refine notifs_of_place rfl h.nodup (fun i op hop => ?_) ⟨hidx, hidle⟩
    obtain ⟨hissued, hnone⟩ := mem_outstanding.1 hop
    have hissued : (s.issued ++ [idx])[op]? = some i := hissued
    -- the new operation is the one the task awaits
    rcases Nat.lt_trichotomy op s.issued.length with hlt | rfl | hgt
    · rw [List.getElem?_append_left hlt] at hissued
      exact .inl ((htracked i op (mem_outstanding.2 ⟨hissued, hnone⟩)).resolve_right (by simp [heldOp]))
    · rw [List.getElem?_append_right (Nat.le_refl _)] at hissued
      obtain rfl : idx = i := by simpa using hissued
      exact .inr rfl
    · rw [List.getElem?_eq_none (by simp; omega)] at hissued
      cases hissued

/-! ### Results of a send -/

theorem notifs_retire (hnodup : s.sender.inflight.Nodup) (htracked : s.Tracked none)
    (hidx : idx ∉ s.sender.inflight) (hidle : s.Idle (some idx)) :
    Notifs { s.retire idx with place := .top } := by
  have hbatch : ∀ i, (((s.releaseTags idx (s.batch idx).tagsAtCqe).setBatch idx
      { s.batch idx with tagsAtCqe := [] }).batch i).pendingNotifs = (s.batch i).pendingNotifs := by
    intro i
    refine setBatch_view GatherSendBatch.pendingNotifs ?_ i
    rfl
  have hidle' : ((s.releaseTags idx (s.batch idx).tagsAtCqe).setBatch idx
      { s.batch idx with tagsAtCqe := [] }).Idle (some idx) :=
    hidle.beside (fun i hi => batch_setBatch_of_ne _ hi) rfl
  simp only [retire]
  split
  · rename_i hpending
    exact notifs_of_place rfl hnodup
      (htracked.congr (fun i => (recycle_pendingNotifs i).trans (hbatch i)) rfl)
      (hidle'.recycle hpending)
  · refine notifs_of_place rfl ?_ (htracked.congr hbatch rfl) ?_
    · exact hnodup.append (List.nodup_singleton idx) (by simpa using hidx)
    · intro i hi _
      have hi : i ∉ s.sender.inflight ++ [idx] := hi
      simp only [List.mem_append, List.mem_singleton, not_or] at hi
      exact hidle' i hi.1 (by simpa using Ne.symm hi.2)

theorem Tracked.took (h : s.Tracked none) (n : Nat) : (s.took idx n).Tracked none := by
  refine h.congr (fun i => setBatch_view GatherSendBatch.pendingNotifs ?_ i) rfl
  rfl

theorem notifs_landed {useZc : Bool} {n : Nat} (hnodup : s.sender.inflight.Nodup)
    (htracked : s.Tracked none) (hidx : idx ∉ s.sender.inflight) (hidle : s.Idle (some idx)) :
    Notifs (s.landed idx useZc n) := by
  have hidle' : (s.took idx n).Idle (some idx) :=
    hidle.beside (fun i hi => batch_setBatch_of_ne _ hi) rfl
  rw [landed]
  split
  · exact notifs_of_place rfl hnodup htracked trivial
  · split
    · exact notifs_retire hnodup (htracked.took n) hidx hidle'
    · exact notifs_of_place rfl hnodup (htracked.took n) ⟨hidx, hidle'⟩

theorem stashNotif_of_ne (h : i ≠ idx) : (s.stashNotif idx op).batch i = s.batch i :=
  batch_setBatch_of_ne _ h

theorem Tracked.stash (h : s.Tracked (some (idx, op))) : (s.stashNotif idx op).Tracked none := by
  refine h.change (fun _ _ => id) (fun i hi => by rw [stashNotif_of_ne hi]) ?_ ?_
  · intro i o hi
    simp [Ne.symm hi]
  · intro o _ hold
    rw [stashNotif, batch_setBatch_self]
    refine .inl (List.mem_append.2 (hold.imp_right fun hheld => ?_))
    simp only [Option.some.injEq, Prod.mk.injEq, true_and] at hheld
    simp [hheld]

theorem notifs_zcResult {fixed : Bool} (h : Notifs s) (hplace : s.place = .sentZc idx op fixed) :
    Notifs ((s.stashNotif idx op).zcResult idx fixed res) := by
  obtain ⟨htracked, hidx, hidle⟩ := h.at_place hplace
  have htracked' : (s.stashNotif idx op).Tracked none := htracked.stash
  have hidle' : (s.stashNotif idx op).Idle (some idx) :=
    hidle.beside (fun i hi => stashNotif_of_ne hi) rfl
  cases res with
  | ok n => exact notifs_landed h.nodup htracked' hidx hidle'
  | error errno =>
    simp only [zcResult]
    split
    · exact notifs_of_place rfl h.nodup htracked' ⟨hidx, hidle'⟩
    · split
      · exact notifs_of_place rfl h.nodup htracked' ⟨hidx, hidle'⟩
      · exact notifs_of_place rfl h.nodup htracked' trivial

theorem notifs_copyResult (h : Notifs s) (hplace : s.place = .sentCopy idx) :
    Notifs (s.copyResult idx res) := by
  obtain ⟨htracked, hidx, hidle⟩ := h.at_place hplace
  cases res with
  | ok n => exact notifs_landed h.nodup htracked hidx hidle
  | error errno => exact h.goto hplace rfl fun _ => trivial

theorem notifs_drain {r : Result} (h : Notifs s) (hplace : s.place = .drain r) :
    Notifs (s.drain r) := by
  obtain ⟨htracked, -⟩ := h.at_place hplace
  rw [drain]
  split
  · rename_i idx rest hin
    have hnodup := h.nodup
    rw [hin, List.nodup_cons] at hnodup
    exact notifs_of_place rfl hnodup.2 htracked ⟨hnodup.1, trivial⟩
  · rename_i hin
    refine h.goto hplace rfl fun _ => ⟨?_, hin, fun j hj => ?_⟩
    · simp [hin]
    · exact absurd hj (Nat.not_lt_zero _)

theorem notifs_step (h : Notifs s) (hs : step stage s a = some s') : Notifs s' := by
  cases stepped hs with
  | push w | close | store addr byte => exact ⟨h.nodup, h.tracked, h.placed⟩
  | notify op copied =>
    refine h.notified fun i o ho => ?_
    obtain ⟨hissued, hnone⟩ := mem_outstanding.1 ho
    refine mem_outstanding.2 ⟨hissued, ?_⟩
    have hnone : Function.update s.notified op (some copied) o = none := hnone
    by_cases heq : o = op
    · subst heq
      simp at hnone
    · rwa [Function.update_of_ne heq] at hnone
  | next hplace hnext => exact notifs_next h hplace hnext
  | acquire hplace => exact notifs_acquire h hplace
  | choose hplace => exact notifs_choose h hplace
  | reap hplace => exact notifs_reap h hplace
  | await hplace harrived =>
    obtain ⟨htracked, hplaced⟩ := h.at_place hplace
    refine notifs_of_place rfl h.nodup (fun i o ho => ?_) hplaced
    refine (htracked i o ho).imp_right fun hheld => ?_
    -- the one awaited has arrived
    simp only [heldOp, Option.some.injEq, Prod.mk.injEq] at hheld
    have hnone : s.notified o = none := (mem_outstanding.1 ho).2
    rw [hheld.2, hnone] at harrived
    cases harrived
  | ship hplace => exact notifs_ship h hplace
  | drain hplace => exact notifs_drain h hplace
  | refuse errno hplace => exact h.goto hplace rfl fun _ => trivial
  | sentZc res hplace => exact notifs_zcResult h hplace
  | sentCopy res hplace => exact notifs_copyResult h hplace

/-! ## Tags -/

/-- The tags a batch is to give back, on the send's completion and on its notification. -/
abbrev Tags := List Ticket × List Ticket

def tagsOf (b : GatherSendBatch) : Tags := (b.tagsAtCqe, b.tagsAtNotif)

def items (tags : Tags) : List Nat := (tags.1 ++ tags.2).map Ticket.item

/-- Item `n` was staged with this release class. -/
def StagedAs (staged : List Stage) (n : Nat) (c : Staged) : Prop :=
  ∃ st, staged[n]? = some st ∧ st.release = c

structure Filed (staged : List Stage) (tags : Tags) : Prop where
  cqe : ∀ t ∈ tags.1, StagedAs staged t.item (.atCqe t.tag)
  notif : ∀ t ∈ tags.2, StagedAs staged t.item (.atNotif t.tag)

/-- A staged tag is filed by its class and given back once; a gated one with nothing outstanding. -/
structure Accounted (filed : Fin 2 → Tags) (releases : List Release) (staged : List Stage) : Prop where
  once : ∀ n, (releases.map Release.item).count n + ∑ i, (items (filed i)).count n ≤ 1
  filed : ∀ i, Filed staged (filed i)
  released : ∀ r ∈ releases,
    StagedAs staged r.item (.atCqe r.tag) ∨ (StagedAs staged r.item (.atNotif r.tag) ∧ r.outstanding = [])

def Tickets (s : SendTask W) : Prop := Accounted (fun i => tagsOf (s.batch i)) s.releases s.staged

theorem tagsOf_setBatch (s : SendTask W) (idx : Fin 2) (b : GatherSendBatch) :
    (fun i => tagsOf ((s.setBatch idx b).batch i)) =
      Function.update (fun i => tagsOf (s.batch i)) idx (tagsOf b) := by
  funext i
  by_cases hi : i = idx
  · subst hi
    rw [batch_setBatch_self, Function.update_self]
  · rw [batch_setBatch_of_ne _ hi, Function.update_of_ne hi]

section

variable {filed : Fin 2 → Tags} {releases new : List Release} {staged : List Stage} {tags : Tags}
    {n : Nat}

theorem sum_items_update : (∑ i, (items (Function.update filed idx tags i)).count n) +
    (items (filed idx)).count n = (∑ i, (items (filed i)).count n) + (items tags).count n := by
  rcases Fin.exists_fin_two.1 ⟨idx, rfl⟩ with rfl | rfl
  · rw [Fin.sum_univ_two, Fin.sum_univ_two, Function.update_self, Function.update_of_ne (by decide)]
    omega
  · rw [Fin.sum_univ_two, Fin.sum_univ_two, Function.update_self, Function.update_of_ne (by decide)]
    omega

theorem Accounted.give (h : Accounted filed releases staged)
    (hcount : ∀ n, (new.map Release.item).count n + (items tags).count n ≤ (items (filed idx)).count n)
    (htags : Filed staged tags)
    (hnew : ∀ r ∈ new, StagedAs staged r.item (.atCqe r.tag) ∨
      (StagedAs staged r.item (.atNotif r.tag) ∧ r.outstanding = [])) :
    Accounted (Function.update filed idx tags) (releases ++ new) staged where
  once n := by
    have hsum := @sum_items_update idx filed tags n
    have := h.once n
    have := hcount n
    rw [List.map_append, List.count_append]
    omega
  filed := (Function.forall_update_iff filed fun _ => Filed staged).2 ⟨htags, fun i _ => h.filed i⟩
  released r hr := (List.mem_append.1 hr).elim (h.released r) (hnew r)

theorem Accounted.unused (h : Accounted filed releases staged) (hn : staged.length ≤ n) :
    (releases.map Release.item).count n + ∑ i, (items (filed i)).count n = 0 := by
  have hout : ∀ {c}, ¬ StagedAs staged n c := by
    rintro c ⟨st, hst, -⟩
    have := (List.getElem?_eq_some_iff.1 hst).1
    omega
  have hbatch : ∀ i, (items (filed i)).count n = 0 := by
    intro i
    refine List.count_eq_zero.2 fun hmem => ?_
    obtain ⟨t, ht, rfl⟩ := List.mem_map.1 hmem
    rcases List.mem_append.1 ht with ht | ht
    · exact hout ((h.filed i).cqe t ht)
    · exact hout ((h.filed i).notif t ht)
  have hreleases : (releases.map Release.item).count n = 0 := by
    refine List.count_eq_zero.2 fun hmem => ?_
    obtain ⟨r, hr, rfl⟩ := List.mem_map.1 hmem
    rcases h.released r hr with hst | ⟨hst, -⟩ <;> exact hout hst
  simp [hbatch, hreleases]

theorem StagedAs.append {st : Stage} (h : StagedAs staged n c) : StagedAs (staged ++ [st]) n c := by
  obtain ⟨st', hst, hc⟩ := h
  refine ⟨st', ?_, hc⟩
  rw [List.getElem?_append_left (List.getElem?_eq_some_iff.1 hst).1, hst]

theorem Filed.fileTag (st : Stage) (h : Filed staged (tagsOf b)) :
    Filed (staged ++ [st]) (tagsOf (b.fileTag staged.length st.release)) := by
  have hold : Filed (staged ++ [st]) (tagsOf b) :=
    ⟨fun t ht => (h.cqe t ht).append, fun t ht => (h.notif t ht).append⟩
  have hnew : ∀ {c}, st.release = c → StagedAs (staged ++ [st]) staged.length c := fun hc =>
    ⟨st, by simp, hc⟩
  cases hc : st.release with
  | noRelease => exact hold
  | atCqe tag =>
    refine ⟨fun t ht => ?_, hold.notif⟩
    rcases List.mem_append.1 ht with ht | ht
    · exact hold.cqe t ht
    · obtain rfl := List.mem_singleton.1 ht
      exact hnew hc
  | atNotif tag =>
    refine ⟨hold.cqe, fun t ht => ?_⟩
    rcases List.mem_append.1 ht with ht | ht
    · exact hold.notif t ht
    · obtain rfl := List.mem_singleton.1 ht
      exact hnew hc

theorem count_items_fileTag (b : GatherSendBatch) (n m : Nat) (c : Staged) :
    (items (tagsOf (b.fileTag n c))).count m ≤ (items (tagsOf b)).count m + if m = n then 1 else 0 := by
  have hone : [n].count m = if m = n then 1 else 0 := by
    by_cases h : m = n
    · simp [h]
    · simp [h, Ne.symm h]
  cases c with
  | noRelease => exact Nat.le_add_right ..
  | atCqe tag | atNotif tag =>
    simp only [GatherSendBatch.fileTag, tagsOf, items, List.map_append, List.map_cons, List.map_nil,
      List.count_append, hone]
    omega

theorem Accounted.file (st : Stage) (h : Accounted filed releases staged) (hb : tagsOf b = filed idx) :
    Accounted (Function.update filed idx (tagsOf (b.fileTag staged.length st.release))) releases
      (staged ++ [st]) where
  once n := by
    have hsum := @sum_items_update idx filed (tagsOf (b.fileTag staged.length st.release)) n
    have hfile := count_items_fileTag b staged.length n st.release
    have honce := h.once n
    rw [hb] at hfile
    by_cases hn : n = staged.length
    · have hzero := h.unused (Nat.le_of_eq hn.symm)
      rw [if_pos hn] at hfile
      omega
    · rw [if_neg hn] at hfile
      omega
  filed := by
    refine (Function.forall_update_iff filed fun _ => Filed (staged ++ [st])).2 ⟨?_, fun i _ => ?_⟩
    · exact Filed.fileTag st (hb ▸ h.filed idx)
    · exact ⟨fun t ht => ((h.filed i).cqe t ht).append, fun t ht => ((h.filed i).notif t ht).append⟩
  released r hr := (h.released r hr).imp StagedAs.append fun h => ⟨h.1.append, h.2⟩

theorem Accounted.stageBatch (cap : Option Nat) : ∀ (ws : List W) (b : GatherSendBatch) (m : Memory)
    (staged : List Stage), Accounted (Function.update filed idx (tagsOf b)) releases staged →
    let r := stageBatch stage cap ws b m staged
    Accounted (Function.update filed idx (tagsOf r.batch)) releases r.staged
  | [], _, _, _, h => h
  | w :: ws, b, m, staged, h => by
    have hfile := h.file (b := { b with gather := ((stage m w).apply m b.gather).2 }) (stage m w)
      (Function.update_self idx (tagsOf b) filed).symm
    rw [Function.update_idem] at hfile
    simp only [Stream.stageBatch]
    split
    · split
      · exact hfile
      · exact Accounted.stageBatch cap ws _ _ _ hfile
    · exact h

end

theorem Tickets.give {tags : List Ticket} (h : Tickets s)
    (hcount : ∀ n, (tags.map Ticket.item).count n + (items (tagsOf b)).count n ≤
      (items (tagsOf (s.batch idx))).count n)
    (hb : Filed s.staged (tagsOf b))
    (hok : ∀ t ∈ tags, StagedAs s.staged t.item (.atCqe t.tag) ∨
      (StagedAs s.staged t.item (.atNotif t.tag) ∧ s.outstanding idx = [])) :
    Tickets ((s.releaseTags idx tags).setBatch idx b) := by
  rw [Tickets, tagsOf_setBatch]
  refine Accounted.give h (fun n => ?_) hb fun r hr => ?_
  · simpa [Function.comp_def] using hcount n
  · obtain ⟨t, ht, rfl⟩ := List.mem_map.1 hr
    exact hok t ht

theorem Tickets.setBatch (h : Tickets s) (idx : Fin 2) (b : GatherSendBatch)
    (hb : tagsOf b = tagsOf (s.batch idx)) : Tickets (s.setBatch idx b) := by
  rw [Tickets, tagsOf_setBatch, hb, Function.update_eq_self]
  exact h

theorem Tickets.recycle (h : Tickets s) (hnil : s.outstanding idx = []) : Tickets (s.recycle idx) := by
  refine h.give (fun n => ?_) ⟨fun t ht => ?_, fun t ht => ?_⟩ fun t ht =>
    .inr ⟨(h.filed idx).notif t ht, hnil⟩
  · simp [items, tagsOf, GatherSendBatch.reset, List.count_append]
  · cases ht
  · cases ht

/-! ### The steps of the task -/

theorem tickets_pollFront {rest : List (Fin 2)} (h : Tickets s) (htracked : s.Tracked none) :
    Tickets (s.pollFront idx rest) := by
  obtain ⟨left, hkept, hcases⟩ := pollFront_cases s idx rest
  have hpolled : Tickets (s.polled idx left) :=
    Tickets.setBatch (s := s.noteCopied (s.batch idx).pendingNotifs) h idx _ rfl
  rcases hcases with ⟨hleft, heq⟩ | heq
  · -- nothing that is still to come was in the list
    have hnil : s.outstanding idx = [] := by
      refine List.eq_nil_iff_forall_not_mem.2 fun op hop => ?_
      have hmem := hkept op hop ((htracked idx op hop).resolve_right nofun)
      rw [hleft] at hmem
      cases hmem
    rw [heq]
    exact Tickets.recycle hpolled hnil
  · exact heq ▸ hpolled

theorem tickets_next (h : Tickets s) (hnotifs : Notifs s) (hplace : s.place = .top)
    (hs : s.next = some s') : Tickets s' := by
  simp only [next] at hs
  split at hs
  · obtain rfl := Option.some.inj hs
    exact h
  · obtain rfl := Option.some.inj hs
    exact h
  · split at hs
    · obtain rfl := Option.some.inj hs
      exact h
    · split at hs
      · cases hs
      · obtain rfl := Option.some.inj hs
        exact tickets_pollFront h (hnotifs.at_place hplace).1

theorem tickets_choose {first : W} (h : Tickets s) : Tickets (s.choose stage first) := by
  rw [choose]
  split
  · exact h
  · rename_i idx _
    have hself : Accounted (Function.update (fun i => tagsOf (s.batch i)) idx (tagsOf (s.batch idx)))
        s.releases s.staged := by
      rw [Function.update_eq_self]
      exact h
    show Accounted (fun i => tagsOf ((s.setBatch idx _).batch i)) s.releases _
    rw [tagsOf_setBatch]
    exact Accounted.stageBatch _ (first :: s.work) _ s.memory _ hself

theorem tickets_reap {after : After W} (h : Tickets s) (htracked : s.Tracked none) :
    Tickets (s.reap idx after) := by
  rw [reap]
  split
  · exact h.setBatch idx { s.batch idx with pendingNotifs := (s.batch idx).pendingNotifs.dropLast } rfl
  · rename_i hlast
    exact h.recycle (htracked.outstanding_nil (List.getLast?_eq_none_iff.1 hlast))

theorem tickets_retire (h : Tickets s) (htracked : s.Tracked none) : Tickets (s.retire idx) := by
  have hcqe : Tickets ((s.releaseTags idx (s.batch idx).tagsAtCqe).setBatch idx
      { s.batch idx with tagsAtCqe := [] }) := by
    refine h.give (fun n => ?_) ⟨fun t ht => ?_, (h.filed idx).notif⟩ fun t ht =>
      .inl ((h.filed idx).cqe t ht)
    · simp [items, tagsOf, List.count_append]
    · cases ht
  simp only [retire]
  split
  · rename_i hpending
    rw [batch_setBatch_self] at hpending
    exact hcqe.recycle (htracked.outstanding_nil hpending)
  · exact hcqe

theorem tickets_landed {useZc : Bool} {n : Nat} (h : Tickets s) (htracked : s.Tracked none) :
    Tickets (s.landed idx useZc n) := by
  have htook : Tickets (s.took idx n) :=
    h.setBatch idx { s.batch idx with gather := ((s.batch idx).gather.advance n).1 } rfl
  rw [landed]
  split
  · exact h
  · split
    · exact tickets_retire htook (htracked.took n)
    · exact htook

theorem tickets_zcResult {fixed : Bool} (h : Tickets s) (hnotifs : Notifs s)
    (hplace : s.place = .sentZc idx op fixed) :
    Tickets ((s.stashNotif idx op).zcResult idx fixed res) := by
  have hstash : Tickets (s.stashNotif idx op) :=
    h.setBatch idx { s.batch idx with pendingNotifs := (s.batch idx).pendingNotifs ++ [op] } rfl
  cases res with
  | ok n => exact tickets_landed hstash (Tracked.stash (hnotifs.at_place hplace).1)
  | error errno =>
    simp only [zcResult]
    split
    · exact hstash
    · split <;> exact hstash

theorem tickets_step (h : Tickets s) (hnotifs : Notifs s) (hs : step stage s a = some s') :
    Tickets s' := by
  cases stepped hs with
  | push w | close | store addr byte | notify op copied | await hplace harrived | refuse errno hplace =>
    exact h
  | next hplace hnext => exact tickets_next h hnotifs hplace hnext
  | acquire hplace =>
    simp only [acquire]
    split
    · split <;> exact h
    · exact h
  | choose hplace => exact tickets_choose h
  | reap hplace => exact tickets_reap h (hnotifs.at_place hplace).1
  | @ship idx useZc hplace => cases useZc <;> exact h
  | drain hplace =>
    simp only [drain]
    split <;> exact h
  | sentZc res hplace => exact tickets_zcResult h hnotifs hplace
  | sentCopy res hplace =>
    cases res with
    | ok n => exact tickets_landed h (hnotifs.at_place hplace).1
    | error errno => exact h

/-! ## Runs -/

theorem start_notifs (sender : StreamSender) (hnew : ∀ i, Fresh (sender.batches i))
    (hin : sender.inflight = []) (sendZc : Bool) (m : Memory) :
    Notifs (start sender sendZc m : SendTask W) := by
  refine notifs_of_place rfl ?_ (fun i op hop => ?_) fun i _ _ => hnew i
  · show sender.inflight.Nodup
    simp [hin]
  · simp [outstanding, start] at hop

theorem start_tickets (sender : StreamSender) (hnew : ∀ i, tagsOf (sender.batches i) = ([], []))
    (sendZc : Bool) (m : Memory) : Tickets (start sender sendZc m : SendTask W) := by
  have hnone : Accounted (fun i => tagsOf (sender.batches i)) [] [] := by
    rw [funext hnew]
    exact ⟨by simp [items], fun _ => ⟨nofun, nofun⟩, nofun⟩
  exact hnone

theorem new_batch (sqsize arenaPerItem iovsPerItem : Nat) (poolArena : Option (Nat × Nat))
    (heap : Fin 2 → Nat) (zcMinAvg : Nat) (i : Fin 2) :
    let b := (StreamSender.new sqsize arenaPerItem iovsPerItem poolArena heap zcMinAvg).batches i
    Fresh b ∧ tagsOf b = ([], []) ∧ b.arenaPerItem = arenaPerItem := by
  cases poolArena with
  | none => exact ⟨⟨rfl, rfl, rfl, rfl⟩, rfl, rfl⟩
  | some arena => exact ⟨⟨rfl, rfl, rfl, rfl⟩, rfl, rfl⟩

theorem start_ok (stage : Memory → W → Stage) (sqsize arenaPerItem iovsPerItem : Nat)
    (poolArena : Option (Nat × Nat)) (heap : Fin 2 → Nat) (zcMinAvg : Nat) (sendZc : Bool) (m : Memory)
    {as : List (SendAction W)}
    (hrun : runFrom (step stage) (start (StreamSender.new sqsize arenaPerItem iovsPerItem poolArena heap
      zcMinAvg) sendZc m) as = some s) : Notifs s ∧ Tickets s := by
  have hnew := new_batch sqsize arenaPerItem iovsPerItem poolArena heap zcMinAvg
  refine @runFrom_invariant _ _ (step stage) (fun s => Notifs s ∧ Tickets s) ?_ as _ _ ⟨?_, ?_⟩ hrun
  · intro s a s' h hs
    exact ⟨notifs_step h.1 hs, tickets_step h.2 h.1 hs⟩
  · exact start_notifs _ (fun i => (hnew i).1) rfl sendZc m
  · exact start_tickets _ (fun i => (hnew i).2.1) sendZc m

end SendTask

open SendTask

/-- **What the sender gives back, and when.** In every run, with every order of work, short sends,
refusals, errors and notifications: no staged item's tag is released twice; a tag whose memory a
batch references is released with no operation of the batch outstanding; when a batch is to be chosen
one is free, with nothing outstanding; and once the sender has returned nothing is. -/
theorem sender_accounts_for_tags_and_notifs {W : Type} {s : SendTask W} (stage : Memory → W → Stage)
    (sqsize arenaPerItem iovsPerItem : Nat) (poolArena : Option (Nat × Nat)) (heap : Fin 2 → Nat)
    (zcMinAvg : Nat) (sendZc : Bool) (m : Memory) (as : List (SendAction W))
    (hrun : runFrom (step stage) (start (StreamSender.new sqsize arenaPerItem iovsPerItem poolArena heap
      zcMinAvg) sendZc m) as = some s) :
    (s.releases.map Release.item).Nodup ∧
      (∀ r ∈ s.releases, ∃ st, s.staged[r.item]? = some st ∧ st.tag = some r.tag ∧
        (st.InPlace → r.outstanding = [])) ∧
      (s.place ≠ .panicked ∧ ∀ first, s.place = .choose first → ∃ idx, s.sender.free = some idx ∧
        (s.batch idx).pendingNotifs = [] ∧ s.outstanding idx = []) ∧
      ∀ r, s.place = .returned r → ∀ idx, s.outstanding idx = [] := by
  obtain ⟨hnotifs, htickets⟩ := start_ok stage sqsize arenaPerItem iovsPerItem poolArena heap zcMinAvg
    sendZc m hrun
  refine ⟨?_, fun r hr => ?_, ⟨fun hplace => ?_, fun first hplace => ?_⟩, fun r hplace => ?_⟩
  · refine List.nodup_iff_count_le_one.2 fun n => ?_
    exact (Nat.le_add_right ..).trans (htickets.once n)
  · rcases htickets.released r hr with ⟨st, hst, hc⟩ | ⟨⟨st, hst, hc⟩, hnil⟩
    · refine ⟨st, hst, by simp [Stage.tag, hc], fun hraw => ?_⟩
      obtain ⟨tag, hgated⟩ := st.gated hraw
      rw [hc] at hgated
      cases hgated
    · exact ⟨st, hst, by simp [Stage.tag, hc], fun _ => hnil⟩
  · exact (hnotifs.at_place hplace).2
  · obtain ⟨htracked, hidle, hroom⟩ := hnotifs.at_place hplace
    obtain ⟨idx, hfree, hidx⟩ := free_of_length_lt hroom
    have hpending := (hidle idx hidx nofun).pending
    exact ⟨idx, hfree, hpending, htracked.outstanding_nil hpending⟩
  · exact (hnotifs.at_place hplace).2

/-- A read's response and a bare one in one batch: a short send, a refusal that ends in a copy, the
close of the queue, and the notifications one after the other. -/
def shortThenCopied : List (SendAction Tcp.QueuedWork) :=
  [.push ⟨.response ⟨0, ⟨0, 0, 0, 1, 7, 0⟩, 4⟩, [⟨9000, 4⟩]⟩,
    .push ⟨.response ⟨1, ⟨0, 0, 0, 1, 7, 0⟩, 0⟩, []⟩,
    .run, .run, .run, .run, .sent (.ok 10), .run, .sent (.error 12), .run, .sent (.ok 66), .close,
    .run, .run, .run, .notify 1 false, .run, .run, .notify 0 true, .run, .run, .run, .run, .run]

theorem sender_accounts_for_tags_and_notifs_short_then_copied :
    ∃ s, runFrom (step (Tcp.sendStage false false false)) (start (StreamSender.new 2 Tcp.arenaPerItem
      Tcp.iovsPerItem none (fun i => 4096 * i) 0) true fun _ => 0) shortThenCopied = some s ∧
      s.place = .returned .ok ∧ s.releases.map Release.tag = [1, 0] ∧
      (s.releases.map Release.item).Nodup ∧ ∀ idx, s.outstanding idx = [] := by
  have hview : (runFrom (step (Tcp.sendStage false false false)) (start (StreamSender.new 2
      Tcp.arenaPerItem Tcp.iovsPerItem none (fun i => 4096 * i) 0) true fun _ => 0) shortThenCopied).map
      (fun s => (decide (s.place = .returned .ok), s.releases.map Release.tag)) =
        some (true, [1, 0]) := by
    decide +kernel
  obtain ⟨s, hrun, hs⟩ := Option.map_eq_some_iff.1 hview
  obtain ⟨hplace, htags⟩ := Prod.mk.inj hs
  have hplace : s.place = .returned .ok := of_decide_eq_true hplace
  obtain ⟨hnodup, -, -, hreturned⟩ :=
    sender_accounts_for_tags_and_notifs (Tcp.sendStage false false false)
    2 Tcp.arenaPerItem Tcp.iovsPerItem none (fun i => 4096 * i) 0 true (fun _ => 0) shortThenCopied hrun
  exact ⟨s, hrun, hplace, htags, hnodup, hreturned .ok hplace⟩

end Ioutgt.Stream
