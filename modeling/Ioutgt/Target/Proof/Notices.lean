import Ioutgt.Target.Proof.AdminQueue

/-!
# Namespace-change notices reach the host

* `Books`: the ledger and the event queue agree, and the notices handed out so far are those that
  answered a request followed by those still queued, in order and each once;
* `Balanced.step`: every step keeps the books, and every waiting request has a number of its own that
  was not answered;
* `nsChanged_kept`, `changedNs_reported`: a change stays on record until a log read reports it.
-/

namespace Ioutgt.Target

open Lib Ioutgt.Core Ioutgt.Nvme

variable {out : Outcome} {a₀ a' : AdminState}

/-! ## The books -/

namespace Ledger

variable {B : Type} {l : Ledger} {events : List Nat}

structure Books (l : Ledger) (events : List Nat) : Prop where
  queued : l.queued.length = events.length
  once : l.answers.filterMap (·.notice) ++ l.queued = List.range l.notices
  left : ∀ o ∈ l.left, ∃ n < l.notices, o = some n
  carried : ∀ e ∈ l.answers, ∀ n, e.notice = some n → e.out = .ofStatus nsAttrNotice Status.success
  plain : ∀ e ∈ l.answers, e.notice = none → e.out.result = 0
  nodup : (l.answers.map (·.request)).Nodup
  issued : ∀ e ∈ l.answers, e.request < l.requests

/-- `k` is the number of a request that was dispatched and not answered. -/
def Unanswered (l : Ledger) (k : Nat) : Prop := k < l.requests ∧ k ∉ l.answers.map (·.request)

theorem Books.start : Books start [] where
  queued := rfl
  once := rfl
  left := fun _ h => nomatch h
  carried := fun _ h => nomatch h
  plain := fun _ h => nomatch h
  nodup := .nil
  issued := fun _ h => nomatch h

theorem Books.answer {k : Nat} {notice : Option Nat} {queued events' : List Nat}
    (h : l.Books events) (hk : l.Unanswered k) (hlen : queued.length = events'.length)
    (honce : notice.toList ++ queued = l.queued)
    (hcarried : ∀ n, notice = some n → out = .ofStatus nsAttrNotice Status.success)
    (hplain : notice = none → out.result = 0) :
    Books { l with queued, answers := l.answers ++ [{ request := k, out, notice }] } events' where
  queued := hlen
  once := by
    rw [← h.once, ← honce]
    cases notice <;> simp
  left := h.left
  carried := by
    intro e he n hn
    rcases List.mem_append.1 he with he | he
    · exact h.carried e he n hn
    · obtain rfl := List.mem_singleton.1 he
      exact hcarried n hn
  plain := by
    intro e he hn
    rcases List.mem_append.1 he with he | he
    · exact h.plain e he hn
    · obtain rfl := List.mem_singleton.1 he
      exact hplain hn
  nodup := by
    rw [List.map_append, List.nodup_append]
    refine ⟨h.nodup, List.nodup_singleton _, fun a ha b hb hab => hk.2 ?_⟩
    obtain rfl : b = k := by simpa using hb
    exact hab ▸ ha
  issued := by
    intro e he
    rcases List.mem_append.1 he with he | he
    · exact h.issued e he
    · obtain rfl := List.mem_singleton.1 he
      exact hk.1

theorem Books.request (h : l.Books events) (current : Nat → Nat) :
    Books { l with requests := l.requests + 1, current } events :=
  ⟨h.queued, h.once, h.left, h.carried, h.plain, h.nodup, fun e he => Nat.lt_succ_of_lt (h.issued e he)⟩

theorem Books.unanswered_new (h : l.Books events) (current : Nat → Nat) :
    Unanswered { l with requests := l.requests + 1, current } l.requests := by
  refine ⟨Nat.lt_succ_self _, fun hm => ?_⟩
  obtain ⟨e, he, hr⟩ := List.mem_map.1 hm
  have := h.issued e he
  omega

theorem Books.queued_lt (h : l.Books events) {n : Nat} (hn : n ∈ l.queued) : n < l.notices := by
  have : n ∈ List.range l.notices := h.once ▸ List.mem_append_right _ hn
  exact List.mem_range.1 this

theorem Books.change_same (h : l.Books events) (hne : events ≠ []) :
    Books { l with left := l.left ++ [l.queued.getLast?] } events := by
  refine ⟨h.queued, h.once, fun o ho => ?_, h.carried, h.plain, h.nodup, h.issued⟩
  rcases List.mem_append.1 ho with ho | ho
  · exact h.left o ho
  · obtain rfl := List.mem_singleton.1 ho
    have hq : l.queued ≠ [] := by
      intro hq
      have := h.queued
      rw [hq] at this
      exact hne (List.length_eq_zero_iff.1 this.symm)
    exact ⟨_, h.queued_lt (List.getLast_mem hq), List.getLast?_eq_some_getLast hq⟩

theorem Books.change_new (h : l.Books []) :
    Books { l with
      queued := l.queued ++ [l.notices]
      notices := l.notices + 1
      left := l.left ++ [(l.queued ++ [l.notices]).getLast?] } [nsAttrNotice] := by
  refine ⟨?_, ?_, fun o ho => ?_, h.carried, h.plain, h.nodup, h.issued⟩
  · simp [h.queued]
  · rw [List.range_succ, ← h.once, List.append_assoc]
  · rcases List.mem_append.1 ho with ho | ho
    · obtain ⟨n, hn, rfl⟩ := h.left o ho
      exact ⟨n, Nat.lt_succ_of_lt hn, rfl⟩
    · obtain rfl := List.mem_singleton.1 ho
      exact ⟨l.notices, Nat.lt_succ_self _, by simp⟩

theorem noteChange_same {before after : AdminQueue}
    (h : ¬before.admin.events.length < after.admin.events.length) :
    l.noteChange before after = { l with left := l.left ++ [l.queued.getLast?] } := by
  rw [noteChange, if_neg h]

theorem noteChange_new {before after : AdminQueue}
    (h : before.admin.events.length < after.admin.events.length) :
    l.noteChange before after = { l with
      queued := l.queued ++ [l.notices]
      notices := l.notices + 1
      left := l.left ++ [(l.queued ++ [l.notices]).getLast?] } := by
  rw [noteChange, if_pos h]

end Ledger

/-! ## Over every step -/

namespace RecordedAdmin

open AdminQueue Ledger

variable {B : Type} {w w' : RecordedAdmin} {a : AdminAction B}

structure Balanced (w : RecordedAdmin) : Prop where
  inv : w.queue.Inv
  books : w.ledger.Books w.queue.admin.events
  waiting : ∀ t, w.queue.Waits t → w.ledger.Unanswered (w.ledger.current t)
  distinct : ∀ t u, w.queue.Waits t → w.queue.Waits u →
    w.ledger.current t = w.ledger.current u → t = u

theorem Balanced.start (port : PortConfig) (conn : QueueConn) (now : Nat) :
    Balanced (start port conn now) where
  inv := .start port conn now
  books := .start
  waiting := fun _ h => nomatch h.2
  distinct := fun _ _ h => nomatch h.2

/-- What an answered event request took off the event queue. -/
inductive Took (out : Outcome) (before after : List Nat) : Prop where
  | nothing (same : after = before) (plain : out.result = 0)
  | notice (was : before = [nsAttrNotice]) (now : after = [])
    (is : out = .ofStatus nsAttrNotice Status.success)

theorem took_of_poll (hn : a₀.events = [] ∨ a₀.events = [nsAttrNotice])
    (h : EventPoll a₀ (some out) a') : Took out a₀.events a'.events := by
  cases h with
  | closed => exact .nothing rfl rfl
  | notified _ he =>
    rcases hn with hn | hn
    · rw [he] at hn
      cases hn
    · obtain ⟨rfl, rfl⟩ := List.cons.inj (he.symm.trans hn)
      exact .notice hn rfl rfl

theorem took_of_handled {port : PortConfig} {sqe : Sqe}
    (hn : a₀.events = [] ∨ a₀.events = [nsAttrNotice]) (hop : sqe.opcode = AdminOpcode.asyncEvent)
    (h : Handled (B := B) port a₀ sqe (.done out) a') : Took out a₀.events a'.events := by
  cases h with
  | event _ _ polled same =>
    rw [same.events]
    exact took_of_poll hn polled
  | changedNs _ op => exact absurd (hop.symm.trans op.1) (by decide)
  | busy _ same => exact .nothing same.events rfl
  | other hne => exact absurd hop hne

theorem Balanced.answer {q q' : AdminQueue} {l : Ledger} {tag : Nat} {ans : Answer} (hinv : q'.Inv)
    (hb : l.Books q.admin.events) (hk : l.Unanswered (l.current tag))
    (hwait : ∀ t, q'.Waits t → l.Unanswered (l.current t) ∧ l.current t ≠ l.current tag)
    (hdist : ∀ t u, q'.Waits t → q'.Waits u → l.current t = l.current u → t = u)
    (htook : Took ans.out q.admin.events q'.admin.events) :
    Balanced ⟨q', l.noteAnswer q q' tag (some ans)⟩ := by
  -- the books get an entry; the numbers of the others are still unanswered
  have hentry : ∀ {queued : List Nat} {notice : Option Nat},
      Books { l with
        queued
        answers := l.answers ++ [{ request := l.current tag, out := ans.out, notice }] }
        q'.admin.events →
      Balanced ⟨q', { l with
        queued
        answers := l.answers ++ [{ request := l.current tag, out := ans.out, notice }] }⟩ := by
    intro queued notice hbooks
    refine ⟨hinv, hbooks, fun t ht => ?_, hdist⟩
    obtain ⟨⟨hlt, hnot⟩, hne⟩ := hwait t ht
    refine ⟨hlt, fun hm => ?_⟩
    rw [List.map_append, List.mem_append] at hm
    rcases hm with hm | hm
    · exact hnot hm
    · exact hne (by simpa using hm)
  cases htook with
  | nothing same plain =>
    rw [noteAnswer, same, if_neg (Nat.lt_irrefl _)]
    refine hentry (hb.answer hk ?_ rfl (fun n h => nomatch h) fun _ => plain)
    rw [same]
    exact hb.queued
  | notice was now is =>
    obtain ⟨n, hn⟩ : ∃ n, l.queued = [n] := by
      have := hb.queued
      rw [was] at this
      exact List.length_eq_one_iff.1 this
    have hlt : ([] : List Nat).length < [nsAttrNotice].length := Nat.zero_lt_one
    rw [noteAnswer, was, now, if_pos hlt]
    refine hentry (hb.answer hk ?_ ?_ (fun _ _ => is) fun h => ?_)
    · rw [hn, now]
      rfl
    · rw [hn]
      rfl
    · rw [hn] at h
      cases h

theorem events_of_other {port : PortConfig} {sqe : Sqe} {reply : Reply B}
    (hop : sqe.opcode ≠ AdminOpcode.asyncEvent) (h : Handled port a₀ sqe reply a') :
    a'.events = a₀.events := by
  cases h with
  | event _ op => exact absurd op hop
  | waits _ op => exact absurd op hop
  | changedNs _ _ same => exact same.events
  | busy _ same => exact same.events
  | other _ _ same => exact same.events

def numbered (l : Ledger) (tag : Nat) : Ledger :=
  { l with requests := l.requests + 1, current := Function.update l.current tag l.requests }

theorem Balanced.numbered_new (hb : w.Balanced) (tag : Nat) :
    (numbered w.ledger tag).Unanswered ((numbered w.ledger tag).current tag) := by
  have hself : (numbered w.ledger tag).current tag = w.ledger.requests := Function.update_self ..
  rw [hself]
  exact hb.books.unanswered_new _

theorem Balanced.numbered_old (hb : w.Balanced) {tag t : Nat} (hne : t ≠ tag)
    (ht : w.queue.Waits t) :
    (numbered w.ledger tag).current t = w.ledger.current t ∧
      (numbered w.ledger tag).Unanswered (w.ledger.current t) ∧
      w.ledger.current t ≠ (numbered w.ledger tag).current tag := by
  obtain ⟨hlt, hnot⟩ := hb.waiting t ht
  have hself : (numbered w.ledger tag).current tag = w.ledger.requests := Function.update_self ..
  refine ⟨Function.update_of_ne hne _ _, ⟨Nat.lt_succ_of_lt hlt, hnot⟩, ?_⟩
  rw [hself]
  exact Nat.ne_of_lt hlt

theorem Balanced.changed (hb : w.Balanced) (hinv : w.queue.fireNsChanged.Inv) :
    Balanced ⟨w.queue.fireNsChanged,
      w.ledger.note (B := B) w.queue w.queue.fireNsChanged none .nsChanged⟩ := by
  obtain ⟨haec, hfire⟩ | ⟨haec, hfire⟩ := fireNsChanged_spec hb.inv.notice
  · rw [note, if_pos haec]
    rw [hfire] at hinv ⊢
    exact ⟨hinv, hb.books, hb.waiting, hb.distinct⟩
  · rw [note, if_neg haec]
    have hafter : w.queue.fireNsChanged.admin.events = [nsAttrNotice] := by
      rw [hfire]
      rfl
    have hwaits : ∀ t, w.queue.fireNsChanged.Waits t → w.queue.Waits t := by
      rw [hfire]
      exact fun t h => h
    have hbooks := hb.books
    rcases hb.inv.notice with he | he
    · rw [noteChange_new (by rw [he, hafter]; exact Nat.zero_lt_one)]
      rw [he] at hbooks
      refine ⟨hinv, ?_, fun t ht => hb.waiting t (hwaits t ht),
        fun t u ht hu => hb.distinct t u (hwaits t ht) (hwaits u hu)⟩
      rw [hafter]
      exact hbooks.change_new
    · rw [noteChange_same (by rw [he, hafter]; exact Nat.lt_irrefl _)]
      rw [he] at hbooks
      refine ⟨hinv, ?_, fun t ht => hb.waiting t (hwaits t ht),
        fun t u ht hu => hb.distinct t u (hwaits t ht) (hwaits u hu)⟩
      rw [hafter]
      exact hbooks.change_same (List.cons_ne_nil _ _)

/-- **The books balance after every step.** -/
theorem Balanced.stepped {q' : AdminQueue} {ans : Option Answer} (hb : w.Balanced)
    (h : Stepped w.queue a q' ans) : Balanced ⟨q', w.ledger.note w.queue q' ans a⟩ := by
  have hinv := hb.inv.stepped h
  cases h with
  | @move a slots moves kept =>
    have hnote : w.ledger.note w.queue { w.queue with slots } none a = w.ledger := by
      cases a <;> first | rfl | exact moves.elim
    rw [hnote]
    exact ⟨hinv, hb.books, fun t ht => hb.waiting t (waits_kept kept ht).1,
      fun t u ht hu => hb.distinct t u (waits_kept kept ht).1 (waits_kept kept hu).1⟩
  | @answer tag now tables registry slot out admin slots submitted handled kept =>
    have hold : ∀ t, t < slots.nslots ∧ (slots.slots t).state = .executing →
        w.queue.Waits t ∧ t ≠ tag := fun t ht =>
      have hw := (waits_kept kept ht).1
      ⟨hw, submitted.ne_of_waits hw⟩
    by_cases hop : (w.queue.slots.slots tag).cmd.opcode = AdminOpcode.asyncEvent
    · rw [note, if_pos hop]
      refine @Balanced.answer _ _ (numbered w.ledger tag) _ _ hinv (hb.books.request _)
        (hb.numbered_new tag) (fun t ht => ?_) (fun t u ht hu he => ?_)
        (took_of_handled hb.inv.notice hop handled)
      · obtain ⟨hw, hne⟩ := hold t ht
        obtain ⟨heq, hun, hnew⟩ := hb.numbered_old hne hw
        rw [heq]
        exact ⟨hun, hnew⟩
      · obtain ⟨hw, hne⟩ := hold t ht
        obtain ⟨hwu, hneu⟩ := hold u hu
        rw [(hb.numbered_old hne hw).1, (hb.numbered_old hneu hwu).1] at he
        exact hb.distinct t u hw hwu he
    · rw [note, if_neg hop]
      have hbooks := hb.books
      rw [← events_of_other hop handled] at hbooks
      exact ⟨hinv, hbooks, fun t ht => hb.waiting t (hold t ht).1,
        fun t u ht hu => hb.distinct t u (hold t ht).1 (hold u hu).1⟩
  | @park tag now tables registry slot admin slots submitted handled changed =>
    cases handled with
    | waits ready op polled same =>
      rw [note, if_pos op, noteAnswer]
      have hbooks := hb.books.request (Function.update w.ledger.current tag w.ledger.requests)
      rw [← same.events] at hbooks
      refine ⟨hinv, hbooks, fun t ht => ?_, fun t u ht hu he => ?_⟩
      · obtain rfl | ⟨hne, hw, -⟩ := waits_parked changed ht
        · exact hb.numbered_new t
        · obtain ⟨heq, hun, -⟩ := hb.numbered_old hne hw
          exact heq.symm ▸ hun
      · obtain rfl | ⟨hne, hw, -⟩ := waits_parked changed ht
        · obtain rfl | ⟨hneu, hwu, -⟩ := waits_parked changed hu
          · rfl
          · obtain ⟨heq, -, hnew⟩ := hb.numbered_old hneu hwu
            exact absurd (heq.symm.trans he.symm) hnew
        · obtain ⟨heq, -, hnew⟩ := hb.numbered_old hne hw
          obtain rfl | ⟨hneu, hwu, -⟩ := waits_parked changed hu
          · exact absurd (heq.symm.trans he) hnew
          · exact hb.distinct t u hw hwu (heq.symm.trans (he.trans (hb.numbered_old hneu hwu).1))
  | @resume tag out admin slots polled changed =>
    have hw : w.queue.Waits tag := ⟨changed.lt, changed.was⟩
    refine .answer hinv hb.books (hb.waiting tag hw) (fun t ht => ?_) (fun t u ht hu => ?_)
      (took_of_poll hb.inv.notice polled)
    · obtain ⟨hne, ht, -⟩ := waits_resumed changed ht
      exact ⟨hb.waiting t ht, fun he => hne (hb.distinct t tag ht hw he)⟩
    · exact hb.distinct t u (waits_resumed changed ht).2.1 (waits_resumed changed hu).2.1
  | again => exact ⟨hinv, hb.books, hb.waiting, hb.distinct⟩
  | changed => exact hb.changed hinv
  | closed => exact ⟨hinv, hb.books, hb.waiting, hb.distinct⟩

theorem Balanced.step [Backend B] (hb : w.Balanced) (h : w.step a = some w') : w'.Balanced := by
  obtain ⟨⟨q', ans⟩, hr, rfl⟩ := Option.map_eq_some_iff.1 h
  exact hb.stepped (step_spec hb.inv.wf hr)

end RecordedAdmin

/-! ## The log -/

namespace AdminQueue

variable {B : Type} {q q' : AdminQueue} {a : AdminAction B} {ans : Option Answer}

theorem nsChanged_fireNsChanged (hi : q.Inv) : q.fireNsChanged.admin.nsChanged = true := by
  obtain ⟨-, hfire⟩ | ⟨-, hfire⟩ := fireNsChanged_spec hi.notice
  · rw [hfire]
  · rw [hfire]
    rfl

theorem nsChanged_kept (hi : q.Inv) (h : Stepped q a q' ans) (hread : ¬q.ReadsChangedNs a)
    (hn : q.admin.nsChanged = true) : q'.admin.nsChanged = true := by
  cases h with
  | move => exact hn
  | answer submitted handled =>
    cases handled with
    | event _ _ polled same => exact same.nsChanged.trans (by cases polled <;> exact hn)
    | changedNs ready op => exact absurd ⟨submitted, op.1, op.2, ready⟩ hread
    | busy _ same => exact same.nsChanged.trans hn
    | other _ _ same => exact same.nsChanged.trans hn
  | park submitted handled =>
    cases handled with
    | waits _ _ _ same => exact same.nsChanged.trans hn
  | resume polled => cases polled <;> exact hn
  | again => exact hn
  | changed => exact nsChanged_fireNsChanged hi
  | closed => exact hn

/-- The first log read after a change, whatever came between. -/
theorem nsChanged_run [Backend B] {later : List (AdminAction B)} (hi : q.Inv)
    (hok : StepsOk next (fun q a => ¬q.ReadsChangedNs a) q.fireNsChanged later)
    (hrun : runFrom next q.fireNsChanged later = some q') :
    q'.Inv ∧ q'.admin.nsChanged = true := by
  have hfired : Stepped (B := B) q .nsChanged q.fireNsChanged none := .changed
  have hstep : ∀ {q : AdminQueue} {a : AdminAction B} {q' : AdminQueue},
      (q.Inv ∧ q.admin.nsChanged = true) → ¬q.ReadsChangedNs a → q.next a = some q' →
      q'.Inv ∧ q'.admin.nsChanged = true := by
    rintro q a q' ⟨hi, hn⟩ hread h
    obtain ⟨r, hr, rfl⟩ := Option.map_eq_some_iff.1 h
    have hs := step_spec hi.wf hr
    exact ⟨hi.stepped hs, nsChanged_kept hi hs hread hn⟩
  exact runFrom_invariant_of hstep ⟨hi.stepped hfired, nsChanged_fireNsChanged hi⟩ hok hrun

def ReportsChange (ans : Answer) : Prop :=
  ans.out.status = Status.success ∧ 4 ≤ ans.out.dataLen ∧
    ans.out.data.take 4 = [0xFF, 0xFF, 0xFF, 0xFF]

theorem changedNs_reported [Backend B] (hi : q.Inv) (hn : q.admin.nsChanged = true)
    (hread : q.ReadsChangedNs a) :
    ∃ q' ans, q.step a = some (q', some ans) ∧ ReportsChange ans := by
  cases a with
  | dispatch tag tables registry now slot =>
    obtain ⟨hsub, hop, hlid, hready⟩ := hread
    obtain ⟨⟨q', ans⟩, hr, hs⟩ := dispatch_spec hi.wf hsub tables registry now slot
    have hstep : q.step (.dispatch tag tables registry now slot) = some (q', ans) := by
      rw [step, hr]
      rfl
    cases hs with
    | move moves => exact moves.elim
    | answer submitted handled =>
      refine ⟨_, _, hstep, ?_⟩
      cases handled with
      | event _ op => exact absurd (hop.symm.trans op) (by decide)
      | changedNs _ op => exact Admin.getLogPage_reports q.port op hn
      | busy hnot =>
        rw [hready] at hnot
        cases hnot
      | other _ hlog => exact absurd ⟨hop, hlid⟩ hlog
    | park submitted handled =>
      cases handled with
      | waits _ op => exact absurd (hop.symm.trans op) (by decide)
  | _ => exact hread.elim

end AdminQueue

/-! ## Every interleaving -/

open AdminQueue in
/-- **Every signalled change reaches the host.** Over every run of an admin queue: each change that was
signalled while the notice was enabled left a notice that is queued or answered a request; at most one
is queued; each one handed out is queued or answered exactly one request, which got nothing else; once
every task has run, a queued notice and an unanswered request do not coexist; and the first log read
after a change reports it. -/
theorem notices_reach_host {B : Type} [Backend B] (port : PortConfig) (conn : QueueConn) (now : Nat)
    (as : List (AdminAction B)) (w : RecordedAdmin)
    (hrun : runFrom RecordedAdmin.step (.start port conn now) as = some w) :
    (∀ o ∈ w.ledger.left, ∃ n, o = some n ∧
      (n ∈ w.ledger.queued ∨ ∃ e ∈ w.ledger.answers, e.notice = some n)) ∧
    (w.queue.admin.events = w.ledger.queued.map (fun _ => nsAttrNotice) ∧
      w.ledger.queued.length ≤ 1) ∧
    (w.ledger.answers.filterMap (·.notice) ++ w.ledger.queued = List.range w.ledger.notices ∧
      (w.ledger.answers.map (·.request)).Nodup ∧
      ∀ e ∈ w.ledger.answers, if e.notice.isSome
        then e.out = .ofStatus nsAttrNotice Status.success else e.out.result = 0) ∧
    (w.queue.Settled → w.queue.admin.events ≠ [] →
      ∀ t < w.queue.slots.nslots, (w.queue.slots.slots t).state ≠ .ready ∧
        waitsForEvent (w.queue.slots.slots t) = false) ∧
    ∀ (later : List (AdminAction B)) (q : AdminQueue) (read : AdminAction B),
      StepsOk next (fun q a => ¬q.ReadsChangedNs a) w.queue.fireNsChanged later →
      runFrom next w.queue.fireNsChanged later = some q → q.ReadsChangedNs read →
      ∃ q' ans, q.step read = some (q', some ans) ∧ ReportsChange ans := by
  have hb : w.Balanced := runFrom_invariant RecordedAdmin.Balanced.step (.start port conn now) hrun
  have hle : w.ledger.queued.length ≤ 1 := by
    rw [hb.books.queued]
    rcases hb.inv.notice with h | h <;> rw [h] <;> decide
  refine ⟨fun o ho => ?_, ⟨?_, hle⟩, ⟨hb.books.once, hb.books.nodup, fun e he => ?_⟩,
    fun hset hne t ht => ?_, fun later q read hok hr hread => ?_⟩
  · obtain ⟨n, hn, rfl⟩ := hb.books.left o ho
    have hmem : n ∈ w.ledger.answers.filterMap (·.notice) ++ w.ledger.queued :=
      hb.books.once ▸ List.mem_range.2 hn
    refine ⟨n, rfl, (List.mem_append.1 hmem).symm.imp_right fun h => ?_⟩
    exact List.mem_filterMap.1 h
  · rw [List.map_const', hb.books.queued]
    rcases hb.inv.notice with h | h <;> rw [h] <;> rfl
  · cases hn : e.notice with
    | none => exact hb.books.plain e he hn
    | some n => exact hb.books.carried e he n hn
  · obtain ⟨hsub, hwait⟩ := hset.no_request hb.inv hne t
    refine ⟨fun hr => hsub ⟨ht, hr⟩, ?_⟩
    unfold waitsForEvent
    rw [beq_eq_false_iff_ne.2 fun hx => hwait ⟨ht, hx⟩, Bool.false_and]
  · obtain ⟨hi, hn⟩ := nsChanged_run hb.inv hok hr
    exact changedNs_reported hi hn hread

/-- Two changes with no request outstanding leave one notice; the next request gets it. -/
theorem notices_reach_host_coalesced :
    ∃ w, runFrom RecordedAdmin.step (.start eventPort (eventConn 4) 0)
        (enabling ++ [.nsChanged, .nsChanged] ++ taken 0 eventRequest) = some w ∧
      w.ledger.left = [some 0, some 0] ∧ ∃ e ∈ w.ledger.answers, e.notice = some 0 := by
  have hrun : (runFrom RecordedAdmin.step (.start eventPort (eventConn 4) 0)
      (enabling ++ [.nsChanged, .nsChanged] ++ taken 0 eventRequest)).map
        (fun w => (w.ledger.left, w.ledger.queued)) = some ([some 0, some 0], []) := by
    decide +kernel
  obtain ⟨w, hw, hl⟩ := Option.map_eq_some_iff.1 hrun
  obtain ⟨hleft, hqueued⟩ := Prod.mk.inj hl
  refine ⟨w, hw, hleft, ?_⟩
  obtain ⟨n, hn, h⟩ := (notices_reach_host eventPort (eventConn 4) 0 _ w hw).1 (some 0)
    (by rw [hleft]; exact List.mem_cons_self)
  obtain rfl := Option.some.inj hn
  rw [hqueued] at h
  exact h.resolve_left List.not_mem_nil

end Ioutgt.Target
