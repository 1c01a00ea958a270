import Mathlib.Algebra.Group.Nat.Even
import Mathlib.Data.List.Induction
import Type2Glyphs.Bytes

/-!
# Numerals — bytes as digits to base 256

Reading a number that was written gives the number again, without the digits that were left out
(`bigEndian_ofNat`), and writing a number that was read gives the bytes again (`ofNat_bigEndian`).
-/

namespace Type2Glyphs

namespace Bytes

/-- Reading what was written gives the digits that were written. -/
theorem bigEndian_ofNat (size number : Nat) :
    bigEndian (ofNat size number) = number % 256 ^ size := by
  induction size generalizing number with
  | zero => simp [ofNat, bigEndian, Nat.mod_one]
  | succ size ih =>
      have digit : (UInt8.ofNat number).toNat = number % 256 := by simp
      rw [ofNat, bigEndian_append_byte, ih, digit, Nat.pow_succ, Nat.mul_comm (256 ^ size) 256,
        Nat.mod_mul]
      omega

/-- Writing what was read gives the bytes that were read. -/
theorem ofNat_bigEndian (bytes : Bytes) : ofNat bytes.length (bigEndian bytes) = bytes := by
  induction bytes using List.reverseRecOn with
  | nil => rfl
  | append_singleton bytes byte ih =>
      have low := byte.toNat_lt
      have front : (bigEndian bytes * 256 + byte.toNat) / 256 = bigEndian bytes := by omega
      have last : UInt8.ofNat (bigEndian bytes * 256 + byte.toNat) = byte := by
        apply UInt8.toNat_inj.1
        have wrap : (UInt8.ofNat (bigEndian bytes * 256 + byte.toNat)).toNat =
            (bigEndian bytes * 256 + byte.toNat) % 256 := by simp
        omega
      rw [List.length_append, List.length_singleton, bigEndian_append_byte, ofNat, front, last, ih]

end Bytes

end Type2Glyphs
