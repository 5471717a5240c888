import Ioutgt.Nvme.Proof.Execute
import Ioutgt.Nvme.Proof.Io
import Ioutgt.Tcp.Proof.Payload

/-!
# From the receive path to the backend

The dispatcher's view of a slot takes it that the buffer covers what was delivered. On a connection
that is a consequence of how payload arrives.

* `Watched.slotView`: the view of a ready slot in a reachable state.
* `written_is_what_was_sent`: what a write of the command in that slot writes.
-/

namespace Ioutgt.Tcp

open Lib Ioutgt.Core Ioutgt.Nvme Ioutgt.Backend

def Link.segsOf (l : Link) : SlotData → List (List UInt8)
  | .empty => []
  | .leased segs => segs
  | .ring bid off len => [l.bytesOf (.ring bid off len)]

theorem Link.segsOf_flatten (l : Link) (d : SlotData) : (l.segsOf d).flatten = l.dataOf d := by
  cases d with
  | empty => rfl
  | leased segs => rfl
  | ring bid off len => exact List.append_nil _

variable {cfg : ConnCfg} {w : Watched} {t : Nat} (h : Watched.Reachable cfg w)
  (ht : t < w.conn.link.queue.cfg.sqsize) (hs : (w.conn.slot t).state = .ready)

include h ht hs in
theorem Watched.Reachable.covered :
    (w.conn.slot t).dataLen ≤ (w.conn.link.segsOf (w.conn.slot t).data).flatten.length := by
  have hd := h.delivered ht hs
  have hlen := congrArg List.length hd.arrived.bytes
  rw [List.length_take] at hlen
  rw [Link.segsOf_flatten, ← hd.len]
  omega

def Watched.slotView : SlotView where
  segs := w.conn.link.segsOf (w.conn.slot t).data
  dataLen := (w.conn.slot t).dataLen
  covered := h.covered ht hs

/-- **What is written is what was sent.** However the stream is cut into receives, whatever the state
of the queue and its namespaces: a write of a command handed over by the receive path gives the
backend exactly the payloads that came for the command, in order. -/
theorem written_is_what_was_sent (io : IoState (Volume AnyBackend))
    (tables : Admin.Tables AnyBackend) {ops : List (IoOp AnyBackend)}
    {out : Option (Except Panic Outcome)}
    (hr : (Io.execute io tables (Watched.slotView h ht hs) (w.conn.slot t).cmd).1.Runs ops out)
    {b : AnyBackend} {slba total : Nat} {segs : List (List UInt8)}
    (hop : .writeSegs b slba segs total ∈ ops) :
    segs.flatten.take total = payloads (w.got t) := by
  rcases execute_cases io tables (Watched.slotView h ht hs) (w.conn.slot t).cmd with
    ⟨o, ho, -⟩ | ⟨b', hb⟩
  · rw [ho] at hr
    cases hr <;> cases hop
  · rw [hb] at hr
    cases Prog.only_sound serve_served hr _ hop
    have hd := h.delivered ht hs
    show ((w.conn.link.segsOf (w.conn.slot t).data).flatten).take (w.conn.slot t).dataLen = _
    rw [Link.segsOf_flatten, ← hd.len]
    exact hd.arrived.bytes

theorem written_is_what_was_sent_capsule : ∃ w, ∃ h : Watched.Reachable (Host.twoEntries false) w,
    ∃ ht hs segs, (Io.execute boundIo smallTables (Watched.slotView (t := 1) h ht hs)
        (w.conn.slot 1).cmd).1.Runs [.writeSegs smallMemory 0 segs 512] none ∧
      segs.flatten.take 512 = payloads (w.got 1) := by
  have hrun : (Watched.run (Host.twoEntries false) [.recv (Host.capsuleCmd 0 writeOneBlock
      (List.replicate 512 7) []), .round, .claim [List.replicate 512 0], .round]).map (fun w =>
        ((w.conn.slot 1).state, w.conn.link.queue.cfg.sqsize, (w.conn.slot 1).cmd,
          (w.conn.slot 1).dataLen)) = some (.ready, 2, Sqe.readFromBytes writeOneBlock, 512) := by
    decide +kernel
  obtain ⟨w, h, hd⟩ := Watched.run_reachable hrun
  simp only [Prod.mk.injEq] at hd
  obtain ⟨hs, hsize, hcmd, hlen⟩ := hd
  have ht : 1 < w.conn.link.queue.cfg.sqsize := by omega
  have hall : ∀ v : SlotView, v.dataLen = 512 → (Io.execute boundIo smallTables v
      (Sqe.readFromBytes writeOneBlock)).1.Runs [.writeSegs smallMemory 0 v.segs 512] none := by
    rintro ⟨segs, n, hn⟩ rfl
    exact .call (r := .ok ()) (.cut _)
  have hr := hcmd ▸ hall (Watched.slotView h ht hs) hlen
  exact ⟨w, h, ht, hs, _, hr, written_is_what_was_sent h ht hs _ _ hr (List.mem_singleton.2 rfl)⟩

end Ioutgt.Tcp
