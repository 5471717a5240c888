import Ioutgt.Lib.Bytes
import Ioutgt.Lib.Checked
import Ioutgt.Lib.Radix

/-!
# Namespace UUIDs as text

`parse_uuid` and `format_uuid` of the subsystem module. A `&str` is the list of its characters; its
bytes are their UTF-8 encodings.
-/

namespace Ioutgt.Core

open Lib Lib.Radix

def asBytes (text : List Char) : List UInt8 := text.flatMap String.utf8EncodeChar

def isAsciiHexdigit (c : UInt8) : Bool :=
  48 ≤ c.toNat && c.toNat ≤ 57 || 65 ≤ c.toNat && c.toNat ≤ 70 || 97 ≤ c.toNat && c.toNat ≤ 102

/-- `char::to_digit(16)`, of the character with this code point. -/
def toDigit (c : Nat) : Option Nat :=
  if 48 ≤ c ∧ c ≤ 57 then some (c - 48)
  else if 65 ≤ c ∧ c ≤ 70 then some (c - 55)
  else if 97 ≤ c ∧ c ≤ 102 then some (c - 87)
  else none

/-- One digit of `u128::from_str_radix`: the multiplication and the addition are checked. -/
def pushDigit (n : Nat) (c : UInt8) : Option Nat := do
  let d ← toDigit c.toNat
  if 16 * n + d < 2 ^ 128 then some (16 * n + d) else none

/-- `u128::from_str_radix(_, 16)`: no digits are an error, and so is a sign alone. -/
def fromStrRadix16 : List UInt8 → Option Nat
  | [] => none
  | c :: cs =>
    if c = 43 then
      -- a leading `+`
      if cs.isEmpty then none else cs.foldlM pushDigit 0
    else (c :: cs).foldlM pushDigit 0

def parseUuid {ε : Type} (text : List Char) : Checked ε (Option (Buf 16)) :=
  let b := asBytes text
  if b.length ≠ 36 ∨ [8, 13, 18, 23].any (fun i => b.getD i 0 != 45) then .ok none
  else
    -- `text.split('-').collect()`
    let hex := asBytes (text.filter (· ≠ '-'))
    if hex.all isAsciiHexdigit then
      match fromStrRadix16 hex with
      | some v => .ok (some ⟨toBe 16 v, toBe_length 16 v⟩)
      -- `expect("checked hex")`
      | none => Checked.abort .assertFailed
    else .ok none

def lowerHex (w v : Nat) : List Char := (Nat.toDigits 16 v).leftpad w '0'

def formatUuid (bytes : Buf 16) : List Char :=
  let v := be bytes.bytes
  lowerHex 8 (v >>> 96) ++ '-' ::
  (lowerHex 4 ((v >>> 80) &&& 0xffff) ++ '-' ::
  (lowerHex 4 ((v >>> 64) &&& 0xffff) ++ '-' ::
  (lowerHex 4 ((v >>> 48) &&& 0xffff) ++ '-' ::
  lowerHex 12 (v &&& 0xffffffffffff))))

example : formatUuid ⟨[0x00, 0x11, 0x22, 0x33, 0x44, 0x55, 0x66, 0x77, 0x88, 0x99, 0xaa, 0xbb, 0xcc,
    0xdd, 0xee, 0xff], rfl⟩ = "00112233-4455-6677-8899-aabbccddeeff".toList := by decide +kernel

end Ioutgt.Core
