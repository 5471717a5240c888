import Ioutgt.Tcp.Watch

/-!
# The host's side

PDUs as a host encodes them, runs of a connection, and the host's ledger of the transfers it was
asked for: what it may send next, and what it may not.
-/

namespace Ioutgt.Tcp

open Lib Ioutgt.Nvme

namespace Host

def sqe (opcode cid length sglType : Nat) : List UInt8 :=
  [UInt8.ofNat opcode, 0] ++ toLe 2 cid ++ List.replicate 20 0 ++
    (List.replicate 8 0 ++ toLe 4 length ++ [0, 0, 0, UInt8.ofNat sglType]) ++ List.replicate 24 0

def capsuleCmd (flags : Nat) (entry data digest : List UInt8) : List UInt8 :=
  [UInt8.ofNat PduType.capsuleCmd, UInt8.ofNat flags, 72, 72] ++
    toLe 4 (72 + data.length + digest.length) ++ entry ++ data ++ digest

def h2cData (flags cid ttag offset : Nat) (data digest : List UInt8) : List UInt8 :=
  [UInt8.ofNat PduType.h2cData, UInt8.ofNat flags, 24, 24] ++
    toLe 4 (24 + data.length + digest.length) ++ toLe 2 cid ++ toLe 2 ttag ++ toLe 4 offset ++
    toLe 4 data.length ++ [0, 0, 0, 0] ++ data ++ digest

theorem two_lt_entries : 2 < 2 ^ 16 := by decide

def twoEntries (dataDigest : Bool) : ConnCfg where
  queue := ⟨1, 2, false, Nat.two_pos, two_lt_entries⟩
  hdrDigest := false
  dataDigest := dataDigest
  ring := none
  connect := { Sqe.zeroed with opcode := AdminOpcode.fabrics }
  ring_pos := fun _ h => by cases h
  connect_fabrics := rfl

end Host

/-! ## Runs -/

def Watched.run (cfg : ConnCfg) (as : List Action) : Option Watched :=
  match Conn.init cfg with
  | .ok c => runFrom Watched.step (Watched.start c) as
  | .error _ => none

theorem Watched.run_reachable {cfg : ConnCfg} {as : List Action} {α : Type} {f : Watched → α} {v : α}
    (h : (Watched.run cfg as).map f = some v) : ∃ w, Watched.Reachable cfg w ∧ f w = v := by
  obtain ⟨w, hw, hv⟩ := Option.map_eq_some_iff.1 h
  unfold Watched.run at hw
  split at hw
  · rename_i c hc
    exact ⟨w, ⟨c, hc, as, hw⟩, hv⟩
  · cases hw

/-! ## The host's ledger -/

def SizeOk (sqe : Sqe) (dataLen : Nat) : Prop :=
  dataLen ≤ mdtsBytes ∧ (dataLen = 0 → needsR2t sqe = true → sqe.dptr.length ≤ mdtsBytes)

instance (sqe : Sqe) (dataLen : Nat) : Decidable (SizeOk sqe dataLen) :=
  inferInstanceAs (Decidable (_ ∧ _))

/-- A transfer the target asked for: the command's CID, its length, and how much of it the host
has sent. -/
structure Transfer where
  cid : Nat
  len : Nat
  sent : Nat
  deriving DecidableEq, Repr

/-- The transfers asked for, by transfer tag. -/
abbrev Ledger := Nat → Option Transfer

def Ledger.ask (led : Ledger) (ws : List SendWork) : Ledger :=
  ws.foldl (fun led w => match w with
    | .r2t tag cid _ length => Function.update led tag (some ⟨cid, length, 0⟩)
    | .response _ => led) led

def Ledger.send (led : Ledger) (tag length : Nat) : Ledger :=
  Function.update led tag ((led tag).map fun tr => { tr with sent := tr.sent + length })

namespace Conn

def payload (c : Conn) : Option (Nat × PayloadKind) :=
  match c.phase with
  | .header => none
  | .data d => some (d.tag, d.kind)
  | .ddgst g => some (g.tag, g.kind)

/-- The header that the next round of the header phase completes. -/
def incoming (c : Conn) (win : Window) : Checked PduError (Option DecodedPdu) := do
  let (decoder, _) ← c.decoder.feed (c.link.bytesOf win)
  if decoder.isComplete then
    let (pdu, _) ← decoder.take
    return some pdu
  else return none

end Conn

structure Hosted where
  watched : Watched
  ledger : Ledger

namespace Hosted

def conn (h : Hosted) : Conn := h.watched.conn

def start (c : Conn) : Hosted := { watched := .start c, ledger := fun _ => none }

/-- The ledger when the machine has gone from `c` to `c'`: R2Ts were queued, or the header of an
H2CData PDU was accepted. -/
def book (led : Ledger) (c c' : Conn) : Ledger :=
  let led := led.ask (c'.link.queue.send.drop c.link.queue.send.length)
  match c.payload, c'.payload with
  | none, some (tag, .h2c _ length) => led.send tag length
  | _, _ => led

def step (h : Hosted) (a : Action) : Option Hosted :=
  (h.watched.step a).map fun w => { watched := w, ledger := book h.ledger h.conn w.conn }

/-- A PDU the host may send now: a command within the transfer limit, the next piece of a transfer
it was asked for, or its own termination of the connection. -/
def Allows (led : Ledger) (pdu : DecodedPdu) : Prop :=
  match pdu.kind with
  | .capsuleCmd sqe => SizeOk sqe pdu.dataLen
  | .h2cData cid ttag offset length last =>
    pdu.dataLen = length ∧ 0 < length ∧ ∃ tr ∈ led ttag, tr.cid = cid ∧ tr.sent = offset ∧
      offset + length ≤ tr.len ∧ (last = true → offset + length = tr.len)
  | .h2cTerm _ _ => True
  | _ => False

instance (led : Ledger) (pdu : DecodedPdu) : Decidable (Allows led pdu) := by
  unfold Allows
  split <;> infer_instance

/-- The host's conduct in the next step: its headers are well formed and announce what it may
send. -/
def Conforms (h : Hosted) (a : Action) : Prop :=
  match a, h.conn.phase, h.conn.pc with
  | .round, .header, .inner win =>
    match h.conn.incoming win with
    | .ok next => ∀ pdu ∈ next, Allows h.ledger pdu
    | .error _ => False
  | _, _, _ => True

instance (h : Hosted) (a : Action) : Decidable (h.Conforms a) := by
  unfold Conforms
  split
  · split <;> infer_instance
  · infer_instance

/-- If the next step finds a wrong data digest, it is that of the last PDU of its transfer. -/
def WrongIsLast (h : Hosted) (a : Action) : Prop :=
  match a, h.conn.phase, h.conn.pc with
  | .round, .ddgst g, .inner win =>
    match g.kind with
    | .h2c _ length => g.wrong (h.conn.link.bytesOf win) = true →
        (h.conn.slot g.tag).recvOffset + length = (h.conn.slot g.tag).dataLen
    | .inCapsule => True
  | _, _, _ => True

instance (h : Hosted) (a : Action) : Decidable (h.WrongIsLast a) := by
  unfold WrongIsLast
  split
  · split <;> infer_instance
  · infer_instance

def runOk (cfg : ConnCfg) (Ok : Hosted → Action → Prop) [∀ h a, Decidable (Ok h a)]
    (as : List Action) : Option Hosted :=
  match Conn.init cfg with
  | .ok c =>
    if StepsOk Hosted.step Ok (Hosted.start c) as then runFrom Hosted.step (Hosted.start c) as
    else none
  | .error _ => none

theorem runOk_spec {cfg : ConnCfg} {Ok : Hosted → Action → Prop} [∀ h a, Decidable (Ok h a)]
    {as : List Action} {α : Type} {f : Hosted → α} {v : α}
    (h : (runOk cfg Ok as).map f = some v) :
    ∃ c h, Conn.init cfg = .ok c ∧ StepsOk Hosted.step Ok (Hosted.start c) as ∧
      runFrom Hosted.step (Hosted.start c) as = some h ∧ f h = v := by
  obtain ⟨h, hh, hv⟩ := Option.map_eq_some_iff.1 h
  unfold runOk at hh
  split at hh
  · rename_i c hc
    split at hh
    · rename_i hok
      exact ⟨c, h, hc, hok, hh, hv⟩
    · cases hh
  · cases hh

end Hosted

end Ioutgt.Tcp
