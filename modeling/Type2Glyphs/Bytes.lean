/-!
# Bytes — byte strings and big-endian numbers

Font tables and glyph programs are lists of bytes.  A reader takes what it needs from the front and
returns it with the bytes that follow, or `none` if there are not enough; then nothing has been
read.  A number is read by `bigEndian` and written by `ofNat`, see `Type2Glyphs.Bytes.Numerals`.
-/

namespace Type2Glyphs

/-- A byte string. -/
abbrev Bytes := List UInt8

namespace Bytes

/-! ## Numbers -/

/-- The number that the bytes spell, most significant byte first. -/
def bigEndian (bytes : Bytes) : Nat :=
  bytes.foldl (fun number byte => number * 256 + byte.toNat) 0

/-- The last `size` bytes of a number, most significant byte first. -/
def ofNat : (size : Nat) → (number : Nat) → Bytes
  | 0, _ => []
  | size + 1, number => ofNat size (number / 256) ++ [UInt8.ofNat number]

/-- The last `size` bytes of an integer in two's complement, most significant byte first. -/
def ofInt : (size : Nat) → (number : Int) → Bytes
  | 0, _ => []
  | size + 1, number => ofInt size (number / 256) ++ [UInt8.ofInt number]

/-- The integer with the last `bits` bits of `number` in two's complement. -/
def signed (bits number : Nat) : Int :=
  (number : Int).bmod (1 <<< bits)

@[simp] theorem length_ofNat (size number : Nat) : (ofNat size number).length = size := by
  induction size generalizing number with
  | zero => rfl
  | succ size ih => simp [ofNat, ih]

@[simp] theorem length_ofInt (size : Nat) (number : Int) : (ofInt size number).length = size := by
  induction size generalizing number with
  | zero => rfl
  | succ size ih => simp [ofInt, ih]

theorem bigEndian_append_byte (bytes : Bytes) (byte : UInt8) :
    bigEndian (bytes ++ [byte]) = bigEndian bytes * 256 + byte.toNat := by
  simp [bigEndian]

/-! ## Reading from the front -/

/-- The first `size` bytes and the rest, if there are as many. -/
def split? (size : Nat) (bytes : Bytes) : Option (Bytes × Bytes) :=
  let front := bytes.take size
  if front.length = size then some (front, bytes.drop size) else none

/-- A number of `size` bytes and the rest. -/
def uint? (size : Nat) (bytes : Bytes) : Option (Nat × Bytes) :=
  (bytes.split? size).map fun (front, rest) => (front.bigEndian, rest)

/-- A two's complement integer of `size` bytes and the rest. -/
def int? (size : Nat) (bytes : Bytes) : Option (Int × Bytes) :=
  (bytes.uint? size).map fun (number, rest) => (signed (8 * size) number, rest)

/-- Reading is possible exactly when there are enough bytes, and splits them. -/
theorem split?_eq_some_iff {size : Nat} {bytes front rest : Bytes} :
    bytes.split? size = some (front, rest) ↔ front.length = size ∧ bytes = front ++ rest := by
  simp only [split?]
  constructor
  · intro h
    split at h
    · next full =>
        simp only [Option.some.injEq, Prod.mk.injEq] at h
        obtain ⟨rfl, rfl⟩ := h
        exact ⟨full, (List.take_append_drop size bytes).symm⟩
    · simp at h
  · rintro ⟨rfl, rfl⟩
    simp

theorem split?_append {front : Bytes} (rest : Bytes) :
    (front ++ rest).split? front.length = some (front, rest) :=
  split?_eq_some_iff.2 ⟨rfl, rfl⟩

end Bytes

end Type2Glyphs
