import Mathlib.Data.List.Basic

/-!
# CRC32C

The Castagnoli checksum with its running form: `crc32cAppend c bs` continues the digest `c` of
the bytes already seen over `bs`. `crc32cAppend_append` is the law streaming users rely on:
digesting a stream piece by piece gives the digest of the whole. With `crc32c_nil` it is all that
proofs use of the checksum, an implementation from outside: the running form is irreducible.
-/

namespace Lib

/-- One bit of the reflected shift register. -/
def crcBit (c : UInt32) : UInt32 :=
  if c &&& 1 = 1 then (c >>> 1) ^^^ 0x82F63B78 else c >>> 1

def crcByte (c : UInt32) (b : UInt8) : UInt32 :=
  let c := c ^^^ b.toUInt32
  crcBit (crcBit (crcBit (crcBit (crcBit (crcBit (crcBit (crcBit c)))))))

@[irreducible] def crc32cAppend (c : UInt32) (bs : List UInt8) : UInt32 :=
  bs.foldl crcByte (c ^^^ 0xFFFFFFFF) ^^^ 0xFFFFFFFF

def crc32c (bs : List UInt8) : UInt32 := crc32cAppend 0 bs

theorem crc32c_nil : crc32c [] = 0 := by
  rw [crc32c, crc32cAppend]
  rfl

theorem crc32cAppend_append (c : UInt32) (a b : List UInt8) :
    crc32cAppend (crc32cAppend c a) b = crc32cAppend c (a ++ b) := by
  -- the final complement of one call is undone by the initial complement of the next
  rw [crc32cAppend, crc32cAppend, UInt32.xor_assoc, UInt32.xor_self, UInt32.xor_zero, crc32cAppend,
    List.foldl_append]

theorem crc32c_append (a b : List UInt8) : crc32cAppend (crc32c a) b = crc32c (a ++ b) :=
  crc32cAppend_append 0 a b

-- the check value of the CRC32C catalogue: the digest of the ASCII digits 1 to 9
example : crc32c [49, 50, 51, 52, 53, 54, 55, 56, 57] = 0xE3069283 := by
  decide +kernel

end Lib
