import Ioutgt.Core.Uuid

/-!
# Which texts are UUIDs

The parser checks the length and four hyphens and then drops every hyphen, so what it accepts is
`Dashed`: 36 hexadecimal digits and hyphens with hyphens at four places. A UUID has no others.

* `parseUuid_dashed`, `parseUuid_other`: what the parser does with every text;
* `isUuid_iff`: a UUID is a `Dashed` text of exactly four hyphens;
* `formatUuid_isUuid`: what is formatted is a UUID, of the digits of the bytes.
-/

namespace Ioutgt.Core

open Lib Lib.Radix

variable {c : Char} {cs text : List Char} {ε : Type}

def IsHex (c : Char) : Prop := (toDigit c.toNat).isSome = true

instance (c : Char) : Decidable (IsHex c) := inferInstanceAs (Decidable (_ = true))

def hexValue (c : Char) : Nat := (toDigit c.toNat).getD 0

/-- `text` is groups of 8, 4, 4, 4 and 12 hexadecimal digits joined by hyphens, `digits` are those
digits. -/
def IsUuid (text digits : List Char) : Prop :=
  ∃ g₁ g₂ g₃ g₄ g₅ : List Char,
    text = g₁ ++ '-' :: (g₂ ++ '-' :: (g₃ ++ '-' :: (g₄ ++ '-' :: g₅))) ∧
    digits = g₁ ++ (g₂ ++ (g₃ ++ (g₄ ++ g₅))) ∧
    g₁.length = 8 ∧ g₂.length = 4 ∧ g₃.length = 4 ∧ g₄.length = 4 ∧ g₅.length = 12 ∧
    ∀ c ∈ digits, IsHex c

def spell (digits : List Char) : List UInt8 := (pairs 16 (digits.map hexValue)).map UInt8.ofNat

/-- What the parser checks before it converts. -/
structure Dashed (text : List Char) : Prop where
  length : text.length = 36
  hyphens : ∀ i ∈ [8, 13, 18, 23], text[i]? = some '-'
  chars : ∀ c ∈ text, c = '-' ∨ IsHex c

instance (text : List Char) : Decidable (Dashed text) :=
  -- by the text's characters, not by all characters there are
  have : Decidable (∀ c ∈ text, c = '-' ∨ IsHex c) := List.decidableBAll _ text
  decidable_of_iff (text.length = 36 ∧ (∀ i ∈ [8, 13, 18, 23], text[i]? = some '-') ∧
      ∀ c ∈ text, c = '-' ∨ IsHex c)
    ⟨fun ⟨h₁, h₂, h₃⟩ => ⟨h₁, h₂, h₃⟩, fun h => ⟨h.length, h.hyphens, h.chars⟩⟩

/-! ## Digits -/

theorem toDigit_lt {c d : Nat} (h : toDigit c = some d) : d < 16 ∧ c < 128 := by
  unfold toDigit at h
  split_ifs at h <;> cases h <;> omega

theorem IsHex.ascii (h : IsHex c) : c.toNat < 128 := by
  obtain ⟨d, hd⟩ := Option.isSome_iff_exists.1 h
  exact (toDigit_lt hd).2

theorem IsHex.toDigit_eq (h : IsHex c) : toDigit c.toNat = some (hexValue c) := by
  obtain ⟨d, hd⟩ := Option.isSome_iff_exists.1 h
  rw [hexValue, hd, Option.getD_some]

theorem hexValue_lt (c : Char) : hexValue c < 16 := by
  unfold hexValue
  cases hd : toDigit c.toNat with
  | none => decide
  | some d => exact (toDigit_lt hd).1

theorem IsHex.ne_hyphen (h : IsHex c) : c ≠ '-' := by
  rintro rfl
  exact absurd h (by decide)

theorem isAsciiHexdigit_iff (c : UInt8) : isAsciiHexdigit c = (toDigit c.toNat).isSome := by
  unfold isAsciiHexdigit toDigit
  split_ifs <;> simp <;> omega

theorem digitChar_hex {d : Nat} (h : d < 16) : toDigit (Nat.digitChar d).toNat = some d := by
  revert h
  revert d
  decide

/-! ## Characters and their bytes -/

theorem utf8EncodeChar_ascii (h : c.toNat < 128) :
    String.utf8EncodeChar c = [UInt8.ofNat c.toNat] := by
  unfold String.utf8EncodeChar
  exact if_pos (Nat.le_of_lt_succ h)

theorem utf8EncodeChar_high (h : ¬c.toNat < 128) :
    ∃ b ∈ String.utf8EncodeChar c, 128 ≤ b.toNat := by
  have hv : ¬c.val.toNat ≤ 127 := fun hle => h (Nat.lt_succ_of_le hle)
  -- the last byte is a continuation byte
  refine ⟨UInt8.ofNat (c.val.toNat % 64 + 128), ?_, ?_⟩
  · unfold String.utf8EncodeChar
    simp only [if_neg hv]
    split_ifs <;> simp
  · rw [UInt8.toNat_ofNat']
    omega

theorem asBytes_ascii (h : ∀ c ∈ cs, c.toNat < 128) :
    asBytes cs = cs.map fun c => UInt8.ofNat c.toNat := by
  induction cs with
  | nil => rfl
  | cons c cs ih =>
    obtain ⟨hc, hcs⟩ := List.forall_mem_cons.1 h
    rw [asBytes, List.flatMap_cons, utf8EncodeChar_ascii hc]
    exact congrArg (UInt8.ofNat c.toNat :: ·) (ih hcs)

theorem toNat_ofNat_ascii (h : c.toNat < 128) : (UInt8.ofNat c.toNat).toNat = c.toNat := by
  rw [UInt8.toNat_ofNat']
  exact Nat.mod_eq_of_lt (by omega)

theorem all_isAsciiHexdigit_iff (cs : List Char) :
    (asBytes cs).all isAsciiHexdigit = true ↔ ∀ c ∈ cs, IsHex c := by
  rw [asBytes, List.all_flatMap, List.all_eq_true]
  refine forall₂_congr fun c _ => ?_
  by_cases hc : c.toNat < 128
  · rw [utf8EncodeChar_ascii hc, List.all_cons, List.all_nil, Bool.and_true, isAsciiHexdigit_iff,
      toNat_ofNat_ascii hc, IsHex]
  · obtain ⟨b, hb, hhigh⟩ := utf8EncodeChar_high hc
    refine iff_of_false (fun hall => ?_) fun h => hc h.ascii
    have hbyte := List.all_eq_true.1 hall b hb
    rw [isAsciiHexdigit_iff] at hbyte
    obtain ⟨d, hd⟩ := Option.isSome_iff_exists.1 hbyte
    exact absurd (toDigit_lt hd).2 (Nat.not_lt.2 hhigh)

/-! ## The conversion -/

theorem foldlM_pushDigit (h : ∀ c ∈ cs, IsHex c) {n : Nat} (hn : (n + 1) * 16 ^ cs.length ≤ 2 ^ 128) :
    (cs.map fun c => UInt8.ofNat c.toNat).foldlM pushDigit n =
      some ((cs.map hexValue).foldl (fun n d => 16 * n + d) n) := by
  induction cs generalizing n with
  | nil => rfl
  | cons c cs ih =>
    obtain ⟨hc, hcs⟩ := List.forall_mem_cons.1 h
    have hd := hexValue_lt c
    have hroom : (16 * n + hexValue c + 1) * 16 ^ cs.length ≤ 2 ^ 128 := by
      refine Nat.le_trans (Nat.mul_le_mul_right _ (by omega : _ ≤ (n + 1) * 16)) ?_
      rwa [Nat.mul_assoc, ← Nat.pow_succ']
    have hfit : 16 * n + hexValue c < 2 ^ 128 :=
      Nat.lt_of_lt_of_le (Nat.lt_succ_self _)
        (Nat.le_trans (Nat.le_mul_of_pos_right _ (Nat.pow_pos (by decide))) hroom)
    rw [List.map_cons, List.foldlM_cons, pushDigit, toNat_ofNat_ascii hc.ascii, hc.toDigit_eq,
      List.map_cons, List.foldl_cons, ← ih hcs hroom]
    simp only [Option.bind_eq_bind, Option.bind_some, if_pos hfit]

theorem fromStrRadix16_hex (h : ∀ c ∈ cs, IsHex c) (hne : cs ≠ []) (hlen : cs.length ≤ 32) :
    fromStrRadix16 (asBytes cs) = some (value 16 (cs.map hexValue)) := by
  have hfold : (cs.map fun c => UInt8.ofNat c.toNat).foldlM pushDigit 0 =
      some (value 16 (cs.map hexValue)) :=
    foldlM_pushDigit h (by
      rw [Nat.zero_add, Nat.one_mul]
      exact Nat.pow_le_pow_right (by decide) hlen)
  rw [asBytes_ascii fun c hc => (h c hc).ascii]
  cases cs with
  | nil => exact absurd rfl hne
  | cons c cs =>
    have hc := h c (List.mem_cons_self ..)
    have hplus : UInt8.ofNat c.toNat ≠ 43 := by
      intro heq
      have hcode := toNat_ofNat_ascii hc.ascii
      rw [heq] at hcode
      rw [IsHex, ← hcode] at hc
      exact absurd hc (by decide)
    rw [List.map_cons] at hfold ⊢
    rw [fromStrRadix16, if_neg hplus, hfold]

/-! ## Every text -/

theorem Dashed.ascii (h : ∀ c ∈ text, c = '-' ∨ IsHex c) : ∀ c ∈ text, c.toNat < 128 := by
  intro c hc
  rcases h c hc with rfl | hx
  · decide
  · exact hx.ascii

theorem forall_filter_isHex :
    (∀ c ∈ text.filter (· ≠ '-'), IsHex c) ↔ ∀ c ∈ text, c = '-' ∨ IsHex c := by
  simp only [List.mem_filter, decide_eq_true_eq, ne_eq, and_imp]
  exact forall₂_congr fun c _ => or_iff_not_imp_left.symm

theorem dashed_iff (text : List Char) :
    Dashed text ↔ ¬((asBytes text).length ≠ 36 ∨
        [8, 13, 18, 23].any (fun i => (asBytes text).getD i 0 != 45)) ∧
      (asBytes (text.filter (· ≠ '-'))).all isAsciiHexdigit = true := by
  rw [all_isAsciiHexdigit_iff, forall_filter_isHex]
  by_cases hchars : ∀ c ∈ text, c = '-' ∨ IsHex c
  · have hbytes := asBytes_ascii (Dashed.ascii hchars)
    have hbyte : ∀ c ∈ text, (UInt8.ofNat c.toNat = 45 ↔ c = '-') := by
      intro c hc
      rw [← UInt8.toNat_inj, toNat_ofNat_ascii (Dashed.ascii hchars c hc), ← Char.toNat_inj]
      rfl
    have hlen : text.length = 36 → ∀ i ∈ [8, 13, 18, 23],
        ((asBytes text).getD i 0 = 45 ↔ text[i]? = some '-') := by
      intro h36 i hi
      have hi : i < text.length := by
        rw [h36]
        revert i
        decide
      rw [hbytes, List.getD_eq_getElem?_getD, List.getElem?_map, List.getElem?_eq_getElem hi]
      simpa using hbyte _ (List.getElem_mem hi)
    simp only [hbytes, List.length_map, not_or, not_not, and_iff_left hchars]
    constructor
    · rintro ⟨h36, hy, -⟩
      refine ⟨h36, ?_⟩
      simp only [List.any_eq_true, not_exists, not_and]
      intro i hi
      simpa [hbytes] using (hlen h36 i hi).2 (hy i hi)
    · rintro ⟨h36, hy⟩
      refine ⟨h36, fun i hi => (hlen h36 i hi).1 ?_, hchars⟩
      simp only [List.any_eq_true, not_exists, not_and] at hy
      simpa [hbytes] using hy i hi
  · exact iff_of_false (fun h => hchars h.chars) fun h => hchars h.2

theorem parseUuid_other (h : ¬Dashed text) : (parseUuid text : Checked ε _) = .ok none := by
  rw [dashed_iff] at h
  unfold parseUuid
  dsimp only
  split_ifs with h₁ h₂
  · rfl
  · exact absurd ⟨h₁, h₂⟩ h
  · rfl

theorem cut_at {α : Type} {l : List α} {i : Nat} {x : α} (h : l[i]? = some x) :
    l = l.take i ++ x :: l.drop (i + 1) := by
  obtain ⟨hi, rfl⟩ := List.getElem?_eq_some_iff.1 h
  rw [← List.drop_eq_getElem_cons hi, List.take_append_drop]

theorem cut_group {i : Nat} (h : text[i + 4]? = some '-') :
    text.drop i = (text.drop i).take 4 ++ '-' :: text.drop (i + 5) := by
  have hcut := cut_at (l := text.drop i) (i := 4) (by rwa [List.getElem?_drop])
  rwa [List.drop_drop] at hcut

theorem Dashed.cut (h : Dashed text) :
    ∃ g₁ g₂ g₃ g₄ g₅ : List Char,
      text = g₁ ++ '-' :: (g₂ ++ '-' :: (g₃ ++ '-' :: (g₄ ++ '-' :: g₅))) ∧
      g₁.length = 8 ∧ g₂.length = 4 ∧ g₃.length = 4 ∧ g₄.length = 4 ∧ g₅.length = 12 := by
  have at8 : text = text.take 8 ++ '-' :: text.drop 9 := cut_at (h.hyphens 8 (by decide))
  have at13 := cut_group (i := 9) (h.hyphens 13 (by decide))
  have at18 := cut_group (i := 14) (h.hyphens 18 (by decide))
  have at23 := cut_group (i := 19) (h.hyphens 23 (by decide))
  refine ⟨text.take 8, (text.drop 9).take 4, (text.drop 14).take 4, (text.drop 19).take 4,
    text.drop 24, ?_, ?_, ?_, ?_, ?_, ?_⟩
  · rw [← at23, ← at18, ← at13]
    exact at8
  all_goals simp [h.length]

theorem isUuid_iff (text digits : List Char) :
    IsUuid text digits ↔ Dashed text ∧ text.count '-' = 4 ∧ digits = text.filter (· ≠ '-') := by
  constructor
  · rintro ⟨g₁, g₂, g₃, g₄, g₅, rfl, rfl, l₁, l₂, l₃, l₄, l₅, hex⟩
    simp only [List.forall_mem_append] at hex
    obtain ⟨h₁, h₂, h₃, h₄, h₅⟩ := hex
    have count : ∀ {g : List Char}, (∀ c ∈ g, IsHex c) → g.count '-' = 0 := fun h =>
      List.count_eq_zero.2 fun hm => (h _ hm).ne_hyphen rfl
    have keep : ∀ {g : List Char}, (∀ c ∈ g, IsHex c) → g.filter (· ≠ '-') = g := fun h =>
      List.filter_eq_self.2 fun c hc => by simpa using (h c hc).ne_hyphen
    refine ⟨⟨by simp [l₁, l₂, l₃, l₄, l₅], ?_, ?_⟩, ?_, ?_⟩
    · intro i hi
      simp only [List.mem_cons, List.not_mem_nil, or_false] at hi
      rcases hi with rfl | rfl | rfl | rfl <;>
        simp [List.getElem?_append, l₁, l₂, l₃, l₄]
    · simp only [List.forall_mem_append, List.forall_mem_cons, true_or, true_and]
      exact ⟨fun c hc => .inr (h₁ c hc), fun c hc => .inr (h₂ c hc), fun c hc => .inr (h₃ c hc),
        fun c hc => .inr (h₄ c hc), fun c hc => .inr (h₅ c hc)⟩
    · simp [List.count_append, count h₁, count h₂, count h₃, count h₄, count h₅]
    · simp only [List.filter_append, keep h₁, keep h₂, keep h₃, keep h₄, keep h₅,
        List.filter_cons]
      simp
  · rintro ⟨hd, hcount, rfl⟩
    obtain ⟨g₁, g₂, g₃, g₄, g₅, htext, l₁, l₂, l₃, l₄, l₅⟩ := hd.cut
    have hex := forall_filter_isHex.2 hd.chars
    have free : g₁.count '-' = 0 ∧ g₂.count '-' = 0 ∧ g₃.count '-' = 0 ∧ g₄.count '-' = 0 ∧
        g₅.count '-' = 0 := by
      rw [htext] at hcount
      simp only [List.count_append, List.count_cons_self] at hcount
      omega
    have keep : ∀ {g : List Char}, g.count '-' = 0 → g.filter (· ≠ '-') = g := fun h =>
      List.filter_eq_self.2 fun c hc => by
        simpa using fun heq : c = '-' => List.count_eq_zero.1 h (heq ▸ hc)
    refine ⟨g₁, g₂, g₃, g₄, g₅, htext, ?_, l₁, l₂, l₃, l₄, l₅, hex⟩
    rw [htext]
    simp only [List.filter_append, keep free.1, keep free.2.1, keep free.2.2.1, keep free.2.2.2.1,
      keep free.2.2.2.2, List.filter_cons]
    simp

theorem Dashed.filter_length (h : Dashed text) :
    (text.filter (· ≠ '-')).length + text.count '-' = 36 ∧ 4 ≤ text.count '-' := by
  refine ⟨?_, ?_⟩
  · rw [List.count_eq_length_filter, ← h.length, Nat.add_comm]
    have hsplit := List.length_eq_length_filter_add (l := text) (fun c => c == '-')
    simpa [beq_eq_decide] using hsplit.symm
  · obtain ⟨g₁, g₂, g₃, g₄, g₅, htext, -⟩ := h.cut
    rw [htext]
    simp only [List.count_append, List.count_cons_self]
    omega

theorem parseUuid_dashed (h : Dashed text) :
    (parseUuid text : Checked ε _) =
      if text.filter (· ≠ '-') = [] then Checked.abort .assertFailed
      else .ok (some ⟨toBe 16 (value 16 ((text.filter (· ≠ '-')).map hexValue)), toBe_length ..⟩) := by
  obtain ⟨h₁, h₂⟩ := (dashed_iff text).1 h
  obtain ⟨hlen, hfour⟩ := h.filter_length
  unfold parseUuid
  dsimp only
  rw [if_neg h₁, if_pos h₂]
  split_ifs with hne
  · rw [hne]
    rfl
  · rw [fromStrRadix16_hex (forall_filter_isHex.2 h.chars) hne (by omega)]

theorem toBe_value_hex {digits : List Char} (h : digits.length = 32) :
    toBe 16 (value 16 (digits.map hexValue)) = spell digits := by
  have hlen : (digits.map hexValue).length = 2 * 16 := by rw [List.length_map, h]
  have hlt : ∀ d ∈ digits.map hexValue, d < 16 := by
    intro d hd
    obtain ⟨c, -, rfl⟩ := List.mem_map.1 hd
    exact hexValue_lt c
  have hbe : toBe (pairs 16 (digits.map hexValue)).length _ = spell digits :=
    toBe_value fun _ hp => pairs_lt hlt hp
  rw [pairs_length hlen, show (256 : Nat) = 16 * 16 from rfl, value_pairs hlen] at hbe
  exact hbe

theorem parseUuid_four (h : Dashed text) (hcount : text.count '-' = 4) : ∃ bytes : Buf 16,
      (parseUuid text : Checked ε _) = .ok (some bytes) ∧
        bytes.bytes = spell (text.filter (· ≠ '-')) := by
  have hlen : (text.filter (· ≠ '-')).length = 32 := by
    have := h.filter_length.1
    omega
  have hne : text.filter (· ≠ '-') ≠ [] := List.ne_nil_of_length_pos (by omega)
  refine ⟨⟨toBe 16 (value 16 ((text.filter (· ≠ '-')).map hexValue)), toBe_length ..⟩, ?_, ?_⟩
  · rw [parseUuid_dashed h, if_neg hne]
  · dsimp only
    exact toBe_value_hex hlen

/-! ## Formatting -/

def hexDigits (w v : Nat) : List Char := (digits 16 w v).map Nat.digitChar

theorem hexDigits_length (w v : Nat) : (hexDigits w v).length = w := by simp [hexDigits]

theorem hexDigits_isHex {w v : Nat} (h : c ∈ hexDigits w v) : IsHex c := by
  obtain ⟨d, hd, rfl⟩ := List.mem_map.1 h
  rw [IsHex, digitChar_hex (digits_lt (by decide) hd)]
  rfl

theorem hexDigits_add (u w v : Nat) :
    hexDigits (u + w) v = hexDigits u (v / 16 ^ w) ++ hexDigits w v := by
  rw [hexDigits, digits_add, List.map_append]
  rfl

theorem map_hexValue_hexDigits (w v : Nat) : (hexDigits w v).map hexValue = digits 16 w v := by
  rw [hexDigits, List.map_map]
  refine (List.map_congr_left fun d hd => ?_).trans (List.map_id _)
  rw [Function.comp_apply, hexValue, digitChar_hex (digits_lt (by decide) hd)]
  rfl

theorem lowerHex_field (w k v : Nat) :
    lowerHex (w + 1) (v / 16 ^ k % 16 ^ (w + 1)) = hexDigits (w + 1) (v / 16 ^ k) := by
  rw [lowerHex, leftpad_toDigits (by decide) w (Nat.mod_lt _ (Nat.pow_pos (by decide))), digits_mod]
  rfl

theorem be_lt_uuid (bytes : Buf 16) : be bytes.bytes < 16 ^ 32 := by
  have h := be_lt bytes.bytes
  rwa [bytes.size, show (256 : Nat) ^ 16 = 16 ^ 32 by decide] at h

theorem formatUuid_isUuid (bytes : Buf 16) :
    IsUuid (formatUuid bytes) (hexDigits 32 (be bytes.bytes)) := by
  have hlt := be_lt_uuid bytes
  have htop : be bytes.bytes / 16 ^ 24 % 16 ^ 8 = be bytes.bytes / 16 ^ 24 :=
    Nat.mod_eq_of_lt (Nat.div_lt_of_lt_mul (by rwa [← Nat.pow_add]))
  have shift : ∀ k, be bytes.bytes >>> (4 * k) = be bytes.bytes / 16 ^ k := fun k => by
    rw [Nat.shiftRight_eq_div_pow, Nat.pow_mul]
  have mask : ∀ v, v &&& 0xffff = v % 16 ^ 4 := fun v => Nat.and_two_pow_sub_one_eq_mod v 16
  have low : be bytes.bytes &&& 0xffffffffffff = be bytes.bytes / 16 ^ 0 % 16 ^ 12 := by
    rw [Nat.pow_zero, Nat.div_one]
    exact Nat.and_two_pow_sub_one_eq_mod _ 48
  refine ⟨hexDigits 8 (be bytes.bytes / 16 ^ 24), hexDigits 4 (be bytes.bytes / 16 ^ 20),
    hexDigits 4 (be bytes.bytes / 16 ^ 16), hexDigits 4 (be bytes.bytes / 16 ^ 12),
    hexDigits 12 (be bytes.bytes / 16 ^ 0), ?_, ?_, hexDigits_length .., hexDigits_length ..,
    hexDigits_length .., hexDigits_length .., hexDigits_length .., fun c => hexDigits_isHex⟩
  · rw [formatUuid, mask, mask, mask, low, shift 24, shift 20, shift 16, shift 12, ← htop,
      lowerHex_field 7 24, lowerHex_field 3 20, lowerHex_field 3 16, lowerHex_field 3 12,
      lowerHex_field 11 0, htop]
  · rw [Nat.pow_zero, Nat.div_one, ← hexDigits_add 4 12, ← hexDigits_add 4 16, ← hexDigits_add 4 20,
      ← hexDigits_add 8 24]

/-! ## What is accepted -/

/-- Parsing `text` does not panic, and gives exactly the bytes `text` spells as a UUID. -/
def ParsesExactly (text : List Char) : Prop :=
  ∃ result, (parseUuid text : Checked Empty _) = .ok result ∧
    ∀ bytes : Buf 16, result = some bytes ↔
      ∃ digits, IsUuid text digits ∧ bytes.bytes = spell digits

/-- The parser is exact on every text but those it accepts with more than the four hyphens, and
reads back what is formatted. -/
theorem parse_uuid_exact_iff (text : List Char) :
    (ParsesExactly text ↔ ¬(Dashed text ∧ 4 < text.count '-')) ∧
    ∀ bytes : Buf 16, (parseUuid (formatUuid bytes) : Checked Empty _) = .ok (some bytes) := by
  refine ⟨?_, fun bytes => ?_⟩
  · constructor
    · rintro ⟨result, hparse, hbytes⟩ ⟨hd, hmore⟩
      -- either nothing is left to convert, or what is left is no UUID
      rw [parseUuid_dashed hd] at hparse
      split_ifs at hparse with hne
      · cases hparse
      · cases hparse
        obtain ⟨digits, huuid, -⟩ := (hbytes _).1 rfl
        exact absurd ((isUuid_iff text digits).1 huuid).2.1 (Nat.ne_of_gt hmore)
    · intro h
      by_cases hd : Dashed text
      · have hcount : text.count '-' = 4 := by
          have := hd.filter_length.2
          by_contra hne
          exact h ⟨hd, by omega⟩
        obtain ⟨bytes, hparse, hspell⟩ := parseUuid_four hd hcount
        refine ⟨some bytes, hparse, fun other => ?_⟩
        constructor
        · intro heq
          cases heq
          exact ⟨_, (isUuid_iff text _).2 ⟨hd, hcount, rfl⟩, hspell⟩
        · rintro ⟨digits, huuid, hother⟩
          obtain ⟨-, -, rfl⟩ := (isUuid_iff text digits).1 huuid
          exact congrArg some (Buf.ext (hspell.trans hother.symm))
      · refine ⟨none, parseUuid_other hd, fun bytes => ?_⟩
        constructor
        · intro heq
          cases heq
        · rintro ⟨digits, huuid, -⟩
          exact absurd ((isUuid_iff text digits).1 huuid).1 hd
  · obtain ⟨hd, hcount, hdigits⟩ := (isUuid_iff _ _).1 (formatUuid_isUuid bytes)
    obtain ⟨parsed, hparse, hspell⟩ := parseUuid_four hd hcount
    have hvalue : toBe 16 (value 16 (digits 16 32 (be bytes.bytes))) = bytes.bytes := by
      rw [value_digits, Nat.mod_eq_of_lt (be_lt_uuid bytes)]
      have hback := toBe_be bytes.bytes
      rwa [bytes.size] at hback
    rw [← hdigits, ← toBe_value_hex (hexDigits_length ..), map_hexValue_hexDigits, hvalue] at hspell
    rw [hparse, Buf.ext hspell]

/-- A text of hyphens only panics, and one with a fifth hyphen is accepted. -/
theorem extra_hyphens_parsed :
    (parseUuid (List.replicate 36 '-') : Checked Empty _) = Checked.abort .assertFailed ∧
    (parseUuid "0011223--4455-6677-8899-aabbccddeeff".toList : Checked Empty _) =
      .ok (some ⟨[0x00, 0x01, 0x12, 0x23, 0x44, 0x55, 0x66, 0x77, 0x88, 0x99, 0xaa, 0xbb, 0xcc, 0xdd,
        0xee, 0xff], rfl⟩) := by
  decide +kernel

end Ioutgt.Core
