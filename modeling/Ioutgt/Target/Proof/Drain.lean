import Ioutgt.Target.Proof.Leases

/-!
# Draining a queue at its end

Once the send loop or reap loop has ended no tag is released, so no page of a response that it had not
staged comes back. A
read that is parked then, or that finds too few pages afterwards, stays executing: teardown waits for
it until its timeout and leaks the queue.

* `PagesSuffice`: no read is parked when the loop ends, and afterwards every read finds its pages.
* `Settled.step`: then nobody is ever parked after the end.
* `not_stuck_of_pagesSuffice`: and so teardown can drain.
-/

namespace Ioutgt.Target.Leases

open Lib Ioutgt.Core

/-- Pages the tag's slot task asks for when it runs. -/
def Place.wants : Place → Nat
  | .ready (.read len) => pagesOf len
  | .waiting len => pagesOf len
  | _ => 0

namespace LeaseQueue

/-- No read is parked when the loop ends; a read that is polled after that finds its pages. -/
def PagesSuffice (q : LeaseQueue) : LeaseAction → Prop
  | .endLoop _ => q.pool.waiters = []
  | .start tag => q.phase = .ended → (q.place tag).wants ≤ q.pool.freePages
  | .repoll tag => q.phase = .ended → (q.place tag).wants ≤ q.pool.freePages
  | _ => True

instance (q : LeaseQueue) : ∀ a, Decidable (q.PagesSuffice a)
  | .endLoop _ => inferInstanceAs (Decidable (_ = _))
  | .start _ => inferInstanceAs (Decidable (_ → _))
  | .repoll _ => inferInstanceAs (Decidable (_ → _))
  | .capsule .. | .arrived _ | .refused _ | .finish _ | .release _ | .poll | .route .. | .drain
  | .drained | .polled => .isTrue trivial

/-- Nobody is parked after the end. -/
structure Settled (room : Nat) (q : LeaseQueue) : Prop where
  inv : Inv room q
  awake : q.phase = .ended → q.pool.waiters = []

variable {q q' : LeaseQueue} {tag len room : Nat} {a : LeaseAction}

theorem pollRead_awake (hi : Inv room q) (htag : tag < q.sqsize) (hlen : len ≤ mdtsBytes)
    (henough : pagesOf len ≤ q.pool.freePages) (hawake : q.pool.waiters = []) :
    (q.pollRead tag len).pool.waiters = [] := by
  unfold pollRead
  cases h : q.tryLease tag len with
  | none =>
    have hshort := (tryLease_eq_none hi.pages hlen).1 h
    omega
  | some q₁ => exact (tryLease_swapped hi.pages htag hlen h).awake hawake

theorem pollRead_phase : (q.pollRead tag len).phase = q.phase := by
  unfold pollRead tryLease
  cases q.pool.alloc len <;> rfl

theorem land_awake {work : Work} {landing : Landing} (hi : Inv room q) (htag : tag < q.sqsize)
    (h : q.land tag work landing = some q') :
    q'.phase = q.phase ∧ (q.pool.waiters = [] → q'.pool.waiters = []) := by
  cases landing with
  | none | retained =>
    obtain rfl := Option.some.inj h
    exact ⟨rfl, id⟩
  | buffer len =>
    obtain ⟨hlen, rfl⟩ := of_guard h
    have hs := leaseOrOwned_swapped hi.pages htag hlen
    exact ⟨hs.phase, hs.awake⟩

theorem routeTo_phase {how : Route} (h : q.routeTo tag how = some q') : q'.phase = q.phase := by
  cases how with
  | submit | fail => exact Option.some.inj h ▸ rfl
  | stage len inCapsule =>
    obtain ⟨-, h⟩ := Option.ite_none_right_eq_some.1 h
    unfold tryStage tryLease at h
    cases ha : q.pool.alloc len <;> (rw [ha] at h; exact Option.some.inj h ▸ rfl)

theorem accept_phase {transport : Transport} {cli : Cli} {asked : Nat} {registered : Option Nat}
    (h : accept transport cli asked registered = some q) : q.phase = .resting := by
  unfold accept at h
  split at h
  · exact Option.some.inj h ▸ rfl
  · cases h

theorem awake_step (hi : Inv room q) (hawake : q.phase = .ended → q.pool.waiters = [])
    (hok : q.PagesSuffice a) (h : q.step a = some q') (hend : q'.phase = .ended) :
    q'.pool.waiters = [] := by
  cases a with
  | capsule tag work landing =>
    obtain ⟨⟨-, htag, -⟩, h⟩ := Option.ite_none_right_eq_some.1 h
    obtain ⟨hphase, hnone⟩ := land_awake hi htag h
    exact hnone (hawake (hphase ▸ hend))
  | arrived tag | refused tag =>
    simp only [step] at h
    split at h
    · obtain ⟨-, rfl⟩ := of_guard h
      exact hawake hend
    · cases h
  | start tag =>
    simp only [step] at h
    split at h
    · rename_i work hplace
      obtain ⟨-, h⟩ := Option.ite_none_right_eq_some.1 h
      cases work with
      | other =>
        obtain rfl := Option.some.inj h
        exact hawake hend
      | read len =>
        obtain ⟨hlen, rfl⟩ := of_guard h
        rw [pollRead_phase] at hend
        have henough := hok hend
        rw [hplace] at henough
        exact pollRead_awake hi (hi.bound hplace (by simp)) hlen henough (hawake hend)
    · cases h
  | repoll tag =>
    simp only [step] at h
    split at h
    · rename_i len hplace
      obtain ⟨-, rfl⟩ := of_guard h
      rw [pollRead_phase] at hend
      have henough := hok hend
      rw [hplace] at henough
      exact pollRead_awake hi (hi.bound hplace (by simp)) ((hi.tags tag).reading len hplace) henough
        (hawake hend)
    · cases h
  | finish tag =>
    obtain ⟨-, rfl⟩ := of_guard h
    exact hawake hend
  | release tag =>
    obtain ⟨⟨-, hphase⟩, rfl⟩ := of_guard h
    -- no tag is released after the end
    rw [show q.phase = .ended from hend] at hphase
    cases htr : q.transport <;> (rw [htr] at hphase; cases hphase)
  | route tag how =>
    obtain ⟨⟨-, hphase, -⟩, h⟩ := Option.ite_none_right_eq_some.1 h
    rw [← routeTo_phase h, hend] at hphase
    rcases hphase with h | h <;> cases h
  | drain =>
    obtain ⟨-, h⟩ := Option.ite_none_right_eq_some.1 h
    obtain ⟨q₁, -, rfl⟩ := Option.map_eq_some_iff.1 h
    cases hend
  | poll | drained | polled =>
    obtain ⟨-, rfl⟩ := of_guard h
    cases hend
  | endLoop staged =>
    obtain ⟨⟨-, hn, hplace, hrdma⟩, rfl⟩ := of_guard h
    cases htr : q.transport with
    | tcp => exact (hi.releaseAll htr hn hplace).2 hok
    | rdma =>
      rw [hrdma htr]
      exact hok

theorem Settled.step (hs : Settled room q) (hok : q.PagesSuffice a) (h : q.step a = some q') :
    Settled room q' :=
  ⟨hs.inv.step h, awake_step hs.inv hs.awake hok h⟩

theorem Settled.not_stuck (hs : Settled room q) : ¬ q.Stuck := by
  intro hstuck
  obtain ⟨tag, hexec⟩ := hstuck.executing
  cases hplace : q.place tag with
  | waiting len =>
    have hmem := hstuck.noneWoken tag len hplace
    rw [hs.awake hstuck.ended] at hmem
    cases hmem
  | running => exact hstuck.noneRunning tag hplace
  | free | receiving | ready | responding =>
    rw [hplace] at hexec
    cases hexec

end LeaseQueue

/-- **Teardown can drain** in every run of an IO queue, of either transport and any pool size, in which
no read is parked when the send loop or reap loop ends and every later read finds its pages. -/
theorem not_stuck_of_pagesSuffice (transport : Transport) (cli : Cli) (asked : Nat)
    (registered : Option Nat) (q q' : LeaseQueue) (as : List LeaseAction)
    (haccept : LeaseQueue.accept transport cli asked registered = some q)
    (hok : StepsOk LeaseQueue.step LeaseQueue.PagesSuffice q as)
    (hrun : runFrom LeaseQueue.step q as = some q') : ¬ q'.Stuck := by
  obtain ⟨room, hi, -⟩ := LeaseQueue.accept_inv haccept
  have hstart : LeaseQueue.Settled room q := by
    refine ⟨hi, fun hend => ?_⟩
    rw [LeaseQueue.accept_phase haccept] at hend
    cases hend
  have hsettled := @runFrom_invariant_of _ _ LeaseQueue.step (LeaseQueue.Settled room)
    LeaseQueue.PagesSuffice (fun hs hok h => hs.step hok h) as _ _ hstart hok hrun
  exact hsettled.not_stuck

/-- The host goes away while one read is at the backend and another has been answered: the run drains. -/
theorem not_stuck_of_pagesSuffice_idle_pool :
    ∃ q q', LeaseQueue.accept .tcp ⟨8, 128, by decide⟩ 15 none = some q ∧
      runFrom LeaseQueue.step q
        [.capsule 0 (.read 4096) .none, .start 0, .finish 0, .capsule 1 (.read 131072) .none,
          .endLoop [0], .start 1, .finish 1] = some q' ∧ ¬ q'.Stuck := by
  refine ⟨_, _, rfl, rfl, ?_⟩
  exact not_stuck_of_pagesSuffice .tcp ⟨8, 128, by decide⟩ 15 none _ _
    [.capsule 0 (.read 4096) .none, .start 0, .finish 0, .capsule 1 (.read 131072) .none,
      .endLoop [0], .start 1, .finish 1] rfl (by decide +kernel) rfl

/-- Over RDMA eight reads of 128 KiB take the whole of a one MiB pool and are answered, a ninth is
parked, and the connection is gone before the completion of an answer comes back. -/
def answersUnsent : List LeaseAction :=
  .poll :: (List.range 9).map (.route · (.submit (.read mdtsBytes))) ++ [.drained, .polled] ++
    (List.range 9).map .start ++ (List.range 8).map .finish ++ [.endLoop []]

def answersUnsentPlace (tag : Nat) : Place :=
  if tag < 8 then .responding else if tag = 8 then .waiting mdtsBytes else .free

/-- The parked read waits for the pages of answers whose tags will never be released. -/
theorem unsent_answers_strand_read :
    ∃ q q', LeaseQueue.accept .rdma ⟨1, 128, by decide⟩ 15 none = some q ∧
      runFrom LeaseQueue.step q answersUnsent = some q' ∧ q'.Stuck := by
  obtain ⟨q, haccept⟩ : ∃ q, LeaseQueue.accept .rdma ⟨1, 128, by decide⟩ 15 none = some q := ⟨_, rfl⟩
  have hend : ((LeaseQueue.accept .rdma ⟨1, 128, by decide⟩ 15 none).bind
      (runFrom LeaseQueue.step · answersUnsent)).any (fun q' => decide (q'.sqsize = 16 ∧
        q'.phase = .ended ∧ q'.pool.waiters = [8] ∧
        ∀ tag < 16, q'.place tag = answersUnsentPlace tag)) = true := by
    decide +kernel
  rw [haccept, Option.bind_some] at hend
  obtain ⟨q', hrun, hq'⟩ := (Option.any_eq_true _ _).1 hend
  obtain ⟨hsize, hphase, hwaiters, hplaces⟩ := of_decide_eq_true hq'
  obtain ⟨room, hi, -⟩ := LeaseQueue.accept_inv haccept
  -- past the depth every tag is free, which is what the table says too
  have hplace : ∀ tag, q'.place tag = answersUnsentPlace tag := by
    intro tag
    by_cases htag : tag < 16
    · exact hplaces tag htag
    · have hfree : q'.place tag = .free := by
        by_contra hne
        have := ((hi.run hrun).tags tag).bound hne
        omega
      rw [hfree, answersUnsentPlace, if_neg (by omega), if_neg (by omega)]
  refine ⟨q, q', haccept, hrun, hphase, fun tag => ?_, fun tag work => ?_, fun tag len h => ?_, 8, ?_⟩
  · rw [hplace, answersUnsentPlace]
    split
    · intro h; cases h
    · split <;> (intro h; cases h)
  · rw [hplace, answersUnsentPlace]
    split
    · intro h; cases h
    · split <;> (intro h; cases h)
  · rw [hplace, answersUnsentPlace] at h
    split at h
    · cases h
    · split at h
      · rename_i heq
        rw [hwaiters, heq]
        exact List.mem_singleton_self 8
      · cases h
  · rw [hplace]
    rfl

end Ioutgt.Target.Leases
