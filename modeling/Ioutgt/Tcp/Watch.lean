import Ioutgt.Lib.Run
import Ioutgt.Tcp.RecvLoop

/-!
# Watching the receive machine

An observer beside the machine. From the bytes each step consumes, the phase they were consumed in
and the slot states it sees, it keeps the PDU under way, the PDUs accepted so far, and for each tag
the payload-carrying PDUs and the completions of the command that holds it. It changes nothing: the
machine's steps do not read it.
-/

namespace Ioutgt.Tcp

open Lib Ioutgt.Core Ioutgt.Nvme

/-- The bytes of one PDU, by the part of it they were consumed for. -/
structure Pdu where
  hdr : List UInt8
  payload : List UInt8
  digest : List UInt8
  deriving DecidableEq, Repr

namespace Pdu

def empty : Pdu := ⟨[], [], []⟩

def bytes (p : Pdu) : List UInt8 := p.hdr ++ p.payload ++ p.digest

def pduType (p : Pdu) : Nat := byteAt p.hdr 0

def hasDdgst (p : Pdu) : Bool := hasFlag (byteAt p.hdr 1) PduFlags.ddgst

def plen (p : Pdu) : Nat := leAt p.hdr 4 4

def ttag (p : Pdu) : Nat := leAt p.hdr 10 2

def offset (p : Pdu) : Nat := leAt p.hdr 12 4

/-- The PDU carried a data digest and it is that of the payload. -/
def Verified (p : Pdu) : Prop :=
  p.hasDdgst = true ∧ p.digest.length = 4 ∧ le p.digest = (crc32c p.payload).toNat

instance (p : Pdu) : Decidable p.Verified := inferInstanceAs (Decidable (_ ∧ _))

end Pdu

def payloads (ps : List Pdu) : List UInt8 := ps.flatMap (·.payload)

namespace Conn

def taking (c : Conn) (p : Pdu) (bs : List UInt8) : Pdu :=
  match c.phase with
  | .header => { p with hdr := p.hdr ++ bs }
  | .data _ => { p with payload := p.payload ++ bs }
  | .ddgst _ => { p with digest := p.digest ++ bs }

def between (c : Conn) : Bool :=
  match c.phase, c.pc with
  | .header, .fill => c.decoder.have_ == 0
  | .header, .inner _ => c.decoder.have_ == 0
  | _, _ => false

def active (c : Conn) : Option Nat :=
  match c.phase with
  | .header => none
  | .data d => some d.tag
  | .ddgst d => some d.tag

def slot (c : Conn) (tag : Nat) : Slot Sqe := c.link.queue.slots.slots tag

def stopped (c : Conn) : Bool :=
  match c.pc with
  | .ended _ => true
  | .panicked _ => true
  | _ => false

end Conn

/-- The bytes `bs` complete the data digest, and it is wrong. -/
def DdgstPhase.wrong (g : DdgstPhase) (bs : List UInt8) : Bool :=
  let have_ := g.have_ ++ bs.take (4 - g.have_.length)
  have_.length == 4 && le have_ != g.expected.toNat

def Action.received : Action → List UInt8
  | .recv bs => bs
  | .kernelFill bs => bs
  | .recvmsg bs => bs
  | _ => []

def completionsFor (tag : Nat) (ws : List SendWork) : List Completion :=
  ws.filterMap fun
    | .response c => if c.tag = tag then some c else none
    | .r2t .. => none

structure Watched where
  conn : Conn
  cur : Pdu
  /-- The PDUs accepted, oldest first. -/
  done : List Pdu
  /-- The payload-carrying PDUs accepted for the command that holds the tag. -/
  got : Nat → List Pdu
  /-- The completions pushed for the command that holds the tag. -/
  answers : Nat → List Completion
  sent : List UInt8

namespace Watched

def start (c : Conn) : Watched :=
  { conn := c, cur := .empty, done := [], got := fun _ => [], answers := fun _ => [], sent := [] }

def note (w : Watched) (a : Action) (c' : Conn) (bs : List UInt8) : Watched :=
  let cur := w.conn.taking w.cur bs
  let finished : Bool := c'.between && cur != .empty
  let pushed := c'.link.queue.send.drop w.conn.link.queue.send.length
  { conn := c'
    cur := if finished then .empty else cur
    done := if finished then w.done ++ [cur] else w.done
    got := fun t =>
      if (c'.slot t).state = .free then []
      else if finished ∧ w.conn.active = some t then w.got t ++ [cur]
      else w.got t
    answers := fun t =>
      if (c'.slot t).state = .free then [] else w.answers t ++ completionsFor t pushed
    sent := w.sent ++ a.received }

def step (w : Watched) (a : Action) : Option Watched :=
  (w.conn.step a).map fun (c', bs) => w.note a c' bs

def consumed (w : Watched) : List UInt8 := w.done.flatMap Pdu.bytes ++ w.cur.bytes

end Watched

def Watched.Reachable (cfg : ConnCfg) (w : Watched) : Prop :=
  ∃ c, Conn.init cfg = .ok c ∧ Reaches Watched.step (Watched.start c) w

end Ioutgt.Tcp
