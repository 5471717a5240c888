import Ioutgt.Lib.Chunk
import Ioutgt.Nvme.Proof.PduDecoder

/-!
# Reading headers off a cut byte stream

`HeaderReader` is how the transport uses the decoder: feed it what has arrived, take the header
when one is complete, pass over the payload, start again. It is a `Lib.Consumer`, and
`reader_resumable` shows it resumable, so what it reads off a stream does not depend on how the
stream was cut (`header_stream_chunking`).

* `feed_append`: feeding a longer input goes on where the shorter one ended.
* `ReaderWf`: no panic, no byte beyond the header being assembled.
-/

namespace Ioutgt.Nvme

open Lib

variable {d : PduDecoder}

def PduKind.headerWire (hdrDigest : Bool) : PduKind → Nat
  | .icReq _ | .icResp _ => 128
  | .h2cTerm .. => 24
  | .capsuleCmd _ => 72 + if hdrDigest then 4 else 0
  | .capsuleResp _ | .h2cData .. | .c2hData .. | .r2t .. => 24 + if hdrDigest then 4 else 0

structure HeaderReader where
  dec : PduDecoder
  used : Nat
  skip : Nat
  out : List (DecodedPdu × Nat)
  fail : Option (Fail PduError)

namespace HeaderReader

def new (hdrDigest : Bool) : HeaderReader :=
  { dec := PduDecoder.new hdrDigest, used := 0, skip := 0, out := [], fail := none }

def failed (r : HeaderReader) (f : Fail PduError) : HeaderReader :=
  { r with dec := PduDecoder.new r.dec.hdrDigest, used := 0, fail := some f }

/-- One round on the non-empty buffer `bs`; `payload` tells how far the next header is behind the
end of this one. -/
def round (payload : DecodedPdu → Nat) (r : HeaderReader) (bs : List UInt8) :
    HeaderReader × Nat :=
  if r.skip > 0 then ({ r with skip := r.skip - min r.skip bs.length }, min r.skip bs.length)
  else
    match r.dec.feed bs with
    | .error f => (r.failed f, 0)
    | .ok (dec, n) =>
      if dec.isComplete then
        match dec.take with
        | .error f => (r.failed f, n)
        | .ok (pdu, dec) =>
          ({ r with dec, used := 0, skip := payload pdu, out := r.out ++ [(pdu, r.used + n)] }, n)
      else ({ r with dec, used := r.used + n }, n)

def consumer (payload : DecodedPdu → Nat) : Consumer HeaderReader UInt8 where
  stopped r := r.fail.isSome
  round := round payload

def readAll (payload : DecodedPdu → Nat) (hdrDigest : Bool) (cs : List (List UInt8)) :
    HeaderReader :=
  (consumer payload).chunks (new hdrDigest) cs

end HeaderReader

namespace PduDecoder

/-! ## Feeding more -/

/-- The continuation of a `feed` on further input. -/
def feedOn (b : List UInt8) (p : PduDecoder × Nat) : Checked PduError (PduDecoder × Nat) :=
  if p.1.state = .complete then .ok p
  else p.1.feed b >>= fun q => .ok (q.1, p.2 + q.2)

theorem feedOn_done (hs : d.state = .complete) (b : List UInt8) (n : Nat) :
    feedOn b (d, n) = .ok (d, n) := if_pos hs

theorem feedOn_next (hs : d.state ≠ .complete) (b : List UInt8) (n : Nat) :
    feedOn b (d, n) = d.feed b >>= fun q => .ok (q.1, n + q.2) := if_neg hs

theorem feedLoop_rest_append (h : d.Wf) (hs : d.state = .rest) {a : List UInt8} (b : List UInt8)
    {c : Nat} (hc : c ≤ a.length) (k : Nat) :
    feedLoop (k + 2) d (a ++ b) c = feedLoop (k + 2) d a c >>= feedOn b := by
  have hmax := h.need_le
  obtain ⟨-, hlt⟩ := h.rest hs
  rw [feedLoop_rest h hs (by simp; omega), feedLoop_rest h hs hc, List.length_append]
  by_cases ha : d.have_ + (a.length - c) < d.need
  · have hp : (d.push (a.drop c)).Wf := h.push_rest hs (by simpa using ha)
    rw [if_pos ha, Checked.bind_ok, feedOn_next (by simp [push, hs]), feed_rest hp hs]
    have hdrop : (a ++ b).drop c = a.drop c ++ b := List.drop_append_of_le_length hc
    have hhave : (d.push (a.drop c)).have_ = d.have_ + (a.length - c) := by simp [push]
    have hneed : (d.push (a.drop c)).need = d.need := rfl
    rw [hhave, hneed]
    by_cases hb : d.have_ + (a.length + b.length - c) < d.need
    · rw [if_pos hb, if_pos (by omega), Checked.bind_ok, hdrop, push_push (by simp; omega)]
    · rw [if_neg hb, if_neg (by omega), Checked.bind_ok, push_push (by simp; omega)]
      have htake : slice (a ++ b) c (d.need - d.have_)
          = a.drop c ++ b.take (d.need - (d.have_ + (a.length - c))) := by
        rw [slice, hdrop, List.take_append, List.take_of_length_le (by simp; omega)]
        congr 2
        simp; omega
      rw [htake]
      congr 2
      omega
  · rw [if_neg ha, if_neg (by omega), Checked.bind_ok, feedOn_done rfl]
    have htake : slice (a ++ b) c (d.need - d.have_) = slice a c (d.need - d.have_) := by
      rw [slice, slice, List.drop_append_of_le_length hc, List.take_append_of_le_length]
      simp; omega
    rw [htake]

theorem feedLoop_rest_shift (h : d.Wf) (hs : d.state = .rest) (a : List UInt8) {b : List UInt8}
    {c : Nat} (hc : c ≤ b.length) :
    feedLoop 2 d (a ++ b) (a.length + c) =
      feedLoop 2 d b c >>= fun q => .ok (q.1, a.length + q.2) := by
  have hdrop : (a ++ b).drop (a.length + c) = b.drop c := by
    rw [← List.drop_drop, List.drop_left]
  have hlen : (a ++ b).length - (a.length + c) = b.length - c := by simp; omega
  rw [feedLoop_rest h hs (by simp; omega), feedLoop_rest h hs hc, hlen, slice, hdrop, slice]
  split
  · rw [Checked.bind_ok, List.length_append]
  · rw [Checked.bind_ok, Nat.add_assoc]

theorem feed_common_append (h : d.Wf) (hs : d.state = .common) (a b : List UInt8) :
    d.feed (a ++ b) = d.feed a >>= feedOn b := by
  obtain ⟨hn, hlt⟩ := h.common hs
  by_cases ha : d.have_ + a.length < 8
  · have hp := h.push_common hs ha
    have hhave : (d.push a).have_ = d.have_ + a.length := rfl
    rw [feed_common_short h hs ha, Checked.bind_ok, feedOn_next (by simp [push, hs])]
    by_cases hb : d.have_ + a.length + b.length < 8
    · rw [feed_common_short h hs (by simp; omega), feed_common_short hp hs (by omega),
        Checked.bind_ok, push_push (by simp [maxHdr]; omega), List.length_append]
    · -- `b` completes the common header that `a` began
      have htake : (a ++ b).take (8 - d.have_) = a ++ b.take (8 - (d.have_ + a.length)) := by
        rw [List.take_append, List.take_of_length_le (by omega)]
        congr 2
        omega
      have h8 : (b.take (8 - (d.have_ + a.length))).length = 8 - (d.have_ + a.length) := by
        simp; omega
      rw [feed_common_full h hs (by simp; omega), feed_common_full hp hs (by omega), htake, hhave,
        ← push_push (by simp only [List.length_append, maxHdr]; omega)]
      cases hm : ((d.push a).push (b.take (8 - (d.have_ + a.length)))).fullHeaderLen with
      | error e => rfl
      | ok m =>
        rw [Checked.bind_ok, Checked.bind_ok]
        have hw := Wf.enter_rest (d := d.push a) (by omega) hm
        have hc : 8 - d.have_ = a.length + (8 - (d.have_ + a.length)) := by omega
        rw [hc]
        exact feedLoop_rest_shift hw rfl a (by omega)
  · have h8 : (a.take (8 - d.have_)).length = 8 - d.have_ := by simp; omega
    rw [feed_common_full h hs (by simp; omega), feed_common_full h hs (by omega),
      List.take_append_of_le_length (by omega)]
    cases hm : (d.push (a.take (8 - d.have_))).fullHeaderLen with
    | error e => rfl
    | ok m =>
      rw [Checked.bind_ok, Checked.bind_ok]
      exact feedLoop_rest_append (Wf.enter_rest (by omega) hm) rfl b (by omega) 0

/-- **Feeding more**: `feed` on a longer input does what it does on the shorter one, then goes on
with the rest unless a header has completed. -/
theorem feed_append (h : d.Wf) (hs : d.state ≠ .complete) (a b : List UInt8) :
    d.feed (a ++ b) = d.feed a >>= feedOn b := by
  cases hst : d.state with
  | common => exact feed_common_append h hst a b
  | rest => exact feedLoop_rest_append h hst b (Nat.zero_le _) 1
  | complete => exact absurd hst hs

theorem Taken.headerWire {d' : PduDecoder} {pdu : DecodedPdu} (h : Taken d pdu d') (hw : d.Wf)
    (hs : d.state = .complete) : d.need = pdu.kind.headerWire d.hdrDigest := by
  have hc := fullHeaderLen_ok (hw.checked (by simp [hs]))
  obtain ⟨dig, hl⟩ := hc.layout
  have hdg : d.hdgst = (dig && d.hdrDigest) := by simp [hdgst, hl]
  have hk := h.kind
  rw [hc.len, hdg]
  unfold layoutOf at hl
  unfold parseKind at hk
  repeat' split at hk
  all_goals first
    | exact absurd hk Checked.raise_ne_ok
    | exact absurd hk Checked.abort_ne_ok
    | (injection hk with hk
       rw [← hk]
       simp_all [PduKind.headerWire, PduType.icreq, PduType.icresp, PduType.h2cTerm,
        PduType.c2hTerm, PduType.capsuleCmd, PduType.capsuleResp, PduType.h2cData,
        PduType.c2hData, PduType.r2t])

end PduDecoder

namespace HeaderReader

/-! ## The reader -/

/-- The reader between two rounds. -/
structure ReaderWf (hdrDigest : Bool) (r : HeaderReader) : Prop where
  dec : r.dec.Wf
  opened : r.dec.state ≠ .complete
  digest : r.dec.hdrDigest = hdrDigest
  used : r.used = r.dec.have_
  out : ∀ x ∈ r.out, x.2 = x.1.kind.headerWire hdrDigest
  safe : ∀ p, r.fail ≠ some (.panic p)

theorem ReaderWf.new (hdrDigest : Bool) : ReaderWf hdrDigest (HeaderReader.new hdrDigest) :=
  ⟨.new hdrDigest, by simp [HeaderReader.new, PduDecoder.new], rfl, rfl,
    by simp [HeaderReader.new], by simp [HeaderReader.new]⟩

theorem ReaderWf.failed {hdrDigest : Bool} {r : HeaderReader} (h : ReaderWf hdrDigest r)
    {α : Type} {x : Checked PduError α} (hx : Checked.Safe x) {f : Fail PduError}
    (he : x = .error f) : ReaderWf hdrDigest (r.failed f) :=
  ⟨.new _, by simp [HeaderReader.failed, PduDecoder.new], h.digest, rfl, h.out,
    fun p hp => hx p (by rw [he]; simpa [HeaderReader.failed] using hp)⟩

section
variable {payload : DecodedPdu → Nat} {hdrDigest : Bool} {r : HeaderReader} {bs : List UInt8}

theorem stopped_eq_false : (consumer payload).stopped r = false ↔ r.fail = none := by
  simp [consumer]

theorem round_skip (bs : List UInt8) (h : r.skip > 0) :
    round payload r bs = ({ r with skip := r.skip - min r.skip bs.length }, min r.skip bs.length) :=
  if_pos h

theorem round_feed (bs : List UInt8) (h : ¬r.skip > 0) : round payload r bs =
    match r.dec.feed bs with
    | .error f => (r.failed f, 0)
    | .ok (dec, n) =>
      if dec.isComplete then
        match dec.take with
        | .error f => (r.failed f, n)
        | .ok (pdu, dec) =>
          ({ r with dec, used := 0, skip := payload pdu, out := r.out ++ [(pdu, r.used + n)] }, n)
      else ({ r with dec, used := r.used + n }, n) :=
  if_neg h

theorem ReaderWf.round (h : ReaderWf hdrDigest r) (bs : List UInt8) :
    ReaderWf hdrDigest (round payload r bs).1 ∧ (round payload r bs).2 ≤ bs.length := by
  by_cases hk : r.skip > 0
  · rw [round_skip bs hk]
    exact ⟨{ h with }, Nat.min_le_right _ _⟩
  rw [round_feed bs hk]
  have hsafe := PduDecoder.feed_safe h.dec h.opened bs
  cases hf : r.dec.feed bs with
  | error f => exact ⟨h.failed hsafe hf, Nat.zero_le _⟩
  | ok p =>
    obtain ⟨dec, n⟩ := p
    have hfed := h.dec.feed h.opened hf
    by_cases hc : dec.state = .complete
    · have hic : dec.isComplete = true := by simp [PduDecoder.isComplete, hc]
      simp only [hic, if_true]
      have htsafe := PduDecoder.take_safe hfed.wf hc
      cases ht : dec.take with
      | error f => exact ⟨h.failed htsafe ht, hfed.le⟩
      | ok q =>
        obtain ⟨pdu, dec'⟩ := q
        have htk := hfed.wf.take hc ht
        refine ⟨⟨htk.wf, by simp [htk.reset], ?_, by simp [htk.reset], ?_, h.safe⟩, hfed.le⟩
        · rw [htk.reset, ← h.digest]
          exact hfed.hdrDigest
        · intro x hx
          rcases List.mem_append.1 hx with hx | hx
          · exact h.out x hx
          · obtain rfl : x = (pdu, r.used + n) := by simpa using hx
            have hneed := htk.headerWire hfed.wf hc
            rw [hfed.hdrDigest, h.digest] at hneed
            rw [← hneed, ← hfed.wf.complete hc, hfed.have_, h.used]
    · have hic : dec.isComplete = false := by simp [PduDecoder.isComplete, hc]
      simp only [hic, Bool.false_eq_true, if_false]
      refine ⟨⟨hfed.wf, hc, ?_, ?_, h.out, h.safe⟩, hfed.le⟩
      · rw [hfed.hdrDigest, h.digest]
      · rw [hfed.have_, h.used]

theorem ReaderWf.progress (h : ReaderWf hdrDigest r) (hb : bs ≠ [])
    (hok : (HeaderReader.round payload r bs).1.fail = none) :
    0 < (HeaderReader.round payload r bs).2 := by
  have hlen := List.length_pos_iff.2 hb
  by_cases hk : r.skip > 0
  · rw [round_skip bs hk]
    dsimp only
    omega
  rw [round_feed bs hk] at hok ⊢
  cases hf : r.dec.feed bs with
  | error f => simp [hf, HeaderReader.failed] at hok
  | ok p =>
    obtain ⟨dec, n⟩ := p
    have hpos := (h.dec.feed h.opened hf).pos hb
    dsimp only
    split
    · cases ht : dec.take <;> exact hpos
    · exact hpos

/-- A round cut short by the end of the buffer is resumed by the next. -/
theorem ReaderWf.resume (payload : DecodedPdu → Nat) (h : ReaderWf hdrDigest r)
    (hfail : r.fail = none) (a : List UInt8)
    {b : List UInt8} (hb : b ≠ []) :
    (consumer payload).Same (HeaderReader.round payload r (a ++ b))
        (HeaderReader.round payload r a) ∨
      (HeaderReader.round payload r a).1.fail = none ∧
        (HeaderReader.round payload r a).2 = a.length ∧
        (consumer payload).Same (HeaderReader.round payload r (a ++ b))
          ((HeaderReader.round payload (HeaderReader.round payload r a).1 b).1,
            a.length + (HeaderReader.round payload (HeaderReader.round payload r a).1 b).2) := by
  have hlen := List.length_pos_iff.2 hb
  by_cases hk : r.skip > 0
  · rw [round_skip _ hk, round_skip _ hk, List.length_append]
    by_cases hle : r.skip ≤ a.length
    · left
      rw [Nat.min_eq_left hle, Nat.min_eq_left (by omega)]
      exact ⟨rfl, fun _ => rfl⟩
    · right
      rw [Nat.min_eq_right (by omega : a.length ≤ r.skip), round_skip b (by dsimp only; omega)]
      dsimp only
      refine ⟨hfail, rfl, ?_, fun _ => by dsimp only; omega⟩
      dsimp only
      congr 1
      omega
  rw [round_feed (a ++ b) hk, round_feed a hk,
    PduDecoder.feed_append h.dec h.opened]
  cases hf : r.dec.feed a with
  | error f => exact .inl ⟨rfl, fun _ => rfl⟩
  | ok p =>
    obtain ⟨dec, n⟩ := p
    have hfed := h.dec.feed h.opened hf
    by_cases hc : dec.state = .complete
    · left
      rw [Checked.bind_ok, PduDecoder.feedOn_done hc]
      exact ⟨rfl, fun _ => rfl⟩
    · right
      have hic : dec.isComplete = false := by simp [PduDecoder.isComplete, hc]
      obtain rfl := hfed.all hc
      rw [Checked.bind_ok, PduDecoder.feedOn_next hc]
      simp only [hic, Bool.false_eq_true, if_false]
      refine ⟨hfail, trivial, ?_⟩
      rw [round_feed b (by exact hk)]
      have hd : dec.hdrDigest = r.dec.hdrDigest := hfed.hdrDigest
      cases hg : dec.feed b with
      | error f =>
        refine ⟨?_, fun hst => ?_⟩
        · simp only [Checked.bind_error, HeaderReader.failed, hd]
        · simp [consumer, HeaderReader.failed] at hst
      | ok q =>
        obtain ⟨dec', m⟩ := q
        simp only [Checked.bind_ok, Nat.add_assoc]
        split
        · cases dec'.take with
          | error f => exact ⟨by simp only [HeaderReader.failed, hd], fun _ => rfl⟩
          | ok q => exact ⟨rfl, fun _ => rfl⟩
        · exact ⟨rfl, fun _ => rfl⟩

end

theorem reader_resumable (payload : DecodedPdu → Nat) (hdrDigest : Bool) :
    (consumer payload).Resumable (ReaderWf hdrDigest) where
  inv h _ _ := (h.round _).1
  taken h _ _ := (h.round _).2
  progress h _ hb hok := h.progress hb (stopped_eq_false.1 hok)
  resume h hs _ hb := by
    rcases h.resume payload (stopped_eq_false.1 hs) _ hb with heq | ⟨hst, heq⟩
    · exact .inl heq
    · exact .inr ⟨stopped_eq_false.2 hst, heq⟩

/-- **Headers do not depend on how the stream is cut.** Two chunkings of one byte stream give the
same headers, the same bytes consumed for each and the same first error; each header took exactly
the bytes its kind has on the wire, and no call panicked. -/
theorem header_stream_chunking (payload : DecodedPdu → Nat) (hdrDigest : Bool)
    {cs cs' : List (List UInt8)} (h : cs.flatten = cs'.flatten) :
    readAll payload hdrDigest cs = readAll payload hdrDigest cs' ∧
      (∀ x ∈ (readAll payload hdrDigest cs).out, x.2 = x.1.kind.headerWire hdrDigest) ∧
      (readAll payload hdrDigest cs).dec.have_ ≤ (readAll payload hdrDigest cs).dec.need ∧
      (readAll payload hdrDigest cs).dec.need ≤ maxHdr ∧
      ∀ p, (readAll payload hdrDigest cs).fail ≠ some (.panic p) := by
  have hres := reader_resumable payload hdrDigest
  have hnew := ReaderWf.new hdrDigest
  have hwf := hres.chunks_inv hnew cs
  exact ⟨hres.chunks_eq hnew h, hwf.out, hwf.dec.have_le, hwf.dec.need_le, hwf.safe⟩

theorem header_stream_chunking_capsule :
    readAll (fun _ => 0) false [[5, 0, 24], [0, 24, 0, 0, 0] ++ List.replicate 16 0] =
      readAll (fun _ => 0) false [[5, 0, 24, 0, 24, 0, 0, 0] ++ List.replicate 16 0] :=
  (header_stream_chunking (fun _ => 0) false (by decide)).1

example : (readAll (fun _ => 0) false [[5, 0, 24, 0, 24, 0, 0, 0] ++ List.replicate 16 0]).out.map
    (·.2) = [24] := by decide

end HeaderReader

end Ioutgt.Nvme
